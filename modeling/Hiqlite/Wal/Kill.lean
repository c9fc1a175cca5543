import Hiqlite.Wal.Grow
import Hiqlite.Wal.Refine

/-!
# W18 — recovery after a kill

A process kill leaves the disk of some moment behind, and the next start checks the records of the
last file.

* **`flush_recovers_log`**: behind a flush; `truncate_recovers_removed`: a truncated record comes back;
* **`kill_recovers_records`**: at any moment of a run of appends; `kill_loses_first_record`.
-/

namespace Hiqlite.Wal

open WalFileSet WalDisk
open List hiding set

def Cmd.NoPurge : Cmd → Prop
  | .purge .. => False
  | _ => True

instance : ∀ q : Cmd, Decidable q.NoPurge
  | .purge .. => isFalse id
  | .append _ | .truncate _ | .vote _ | .sync => isTrue trivial

variable {x : Label}

theorem Cmd.NoPurge.labels {q : Cmd} (hq : q.NoPurge) (hx : q.Labels x) : x ≠ .purge := by
  rintro rfl
  cases q with
  | truncate k => exact hx.elim (fun h => h.2 rfl) id
  | vote b => exact hx.elim id fun ⟨m, hm⟩ => by cases hm
  | _ => trivial

variable [Crc]

namespace Writer

/-- `update_header` and `flush` of the active file. -/
def flushActive : WriterM Unit :=
  onWal (onActive do
    WalFile.updateHeader
    WalFile.flush)

variable {c : Cfg} {C : Writer → Cmd → Prop} {w w' : Writer} {qs : List (Cmd × Reply)}

theorem Run.all {R : Cmd → Prop} (h : Run c C w qs w') (hC : ∀ w q, C w q → R q) :
    ∀ q ∈ qs, R q.1 := by
  refine h.invariant (I := fun qs _ => ∀ q ∈ qs, R q.1) (by simp) fun qs w q w' ih hs p hp => ?_
  rcases mem_append.mp hp with hp | hp
  · exact ih p hp
  · rw [mem_singleton.mp hp]
    exact hC _ _ hs.1

end Writer

variable [Codec]

/-- **Recovery behind a flush.** After a run of appends and truncations and a flush of the active
file, recovery returns the log of the writer iff the bytes behind the data are no record with the
next id. -/
theorem flush_recovers_log {c c' : Cfg} (hmin : minWalSize ≤ c.walSize) {w0 w w' : Writer}
    {qs : List (Cmd × Reply)} (h0 : boot c empty = .ok w0)
    (hrun : Writer.Run c (fun w q => Writer.Fit c w q ∧ q.NoPurge) w0 qs w)
    (hflush : Writer.flushActive w = (.ok (), w')) :
    ∃ f ino set d, w'.wal.files.getLast? = some f ∧ w'.dev.disk.lookup f.walNo = some ino ∧
      recover c' (Dev.ofDisk w'.dev.disk) = (.ok set, d) ∧
      (set.stored d.disk = w'.wal.stored w'.dev.disk ↔
        orphanAt (w'.dev.disk.inode ino).bytes f.lenMax f.scanFrom f.lastId = none) := by
  obtain ⟨-, l, r, hst, -, -⟩ := run_fresh hmin h0 hrun (P := (· ≠ .purge)) (fun _ _ h => h.1)
    (fun x hx => by rintro rfl; exact hx.elim id fun ⟨m, hm⟩ => by cases hm)
    fun q hq x hx => (hrun.all (fun _ _ h => h.2) q hq).labels hx
  obtain ⟨ss, a, rfl⟩ := hst.shows.split
  -- the flush leaves the header of the active file on disk
  obtain ⟨d, rfl, h1⟩ := (Exec.wp_of_ok hflush).mp
    (Writer.flushActive_spec (X := fun e => ∃ p, e = .panic p) hst.pos
      (fun x hx => by rintro rfl; exact hx) hst.shows (.inr fun p => ⟨p, rfl⟩))
  have hst1 : { w with dev := d }.Stands c _ _ _ (ss ++ [a.flushed]) r :=
    hst.move rfl rfl (by simp [Slot.flushed]) h1
  obtain ⟨v, ht, hslots, -, -⟩ := h1
  have hv := ht.ok
  have hpre : ∀ x ∈ v.slots, x.pre = [] := by
    obtain ⟨ls, hp, hls, -⟩ := ht.path
    have := hp.invariant (I := fun ls v => (∀ x ∈ ls, x ≠ Label.purge) →
      ∀ a ∈ v.slots, a.pre = [])
      (by simp [View.blank]) fun ls v x v' ih hm hls =>
        hm.pre (hls x (by simp)) (ih fun y hy => hls y (by simp [hy]))
    exact this hls
  have haok : a.flushed.Ok v.disk := hv.slots _ (by simp [hslots])
  obtain ⟨set, d', hrec, hre, hfiles⟩ := recover_spec (c := c') (d := Dev.ofDisk d.disk) hv hslots
    (by simp) rfl haok.body ht.disk (Dev.reliable_ofDisk _)
  have hlog := recovered_log (d := Dev.ofDisk d.disk) hv hslots haok.body ht.disk hre hfiles
  have hstored : w.wal.stored d.disk = ss.flatMap (fun x => x.pre ++ x.recs) ++ a.recs := by
    rw [show w.wal.stored d.disk = _ from hst1.stored, flatMap_append, flatMap_singleton]
    refine congrArg₂ _ (flatMap_congr fun x hx => ?_) rfl
    rw [hpre x (by simp [hslots, hx]), nil_append]
  refine ⟨a.file, a.ino, set, d', by simp [hst.shows.files], ?_, hrec, ?_⟩
  · rw [ht.disk]
    exact hv.lookup (a := a.flushed) (by simp [hslots])
  · rw [← strays_eq_nil, hlog, ht.disk.symm]
    change _ = w.wal.stored d.disk ↔ _
    rw [hstored, append_right_inj]
    exact append_right_eq_self

/-- The active file has no record behind its end once it is flushed. -/
def flushesClean (w : Writer) : Bool :=
  match Writer.flushActive w with
  | (.ok _, w') => match w'.wal.files.getLast? with
    | some f => match w'.dev.disk.lookup f.walNo with
      | some ino =>
        decide (orphanAt (w'.dev.disk.inode ino).bytes f.lenMax f.scanFrom f.lastId = none)
      | none => false
    | none => false
  | (.error _, _) => false

omit [Crc] [Codec] in
/-- A truncated record that is written over is not found again. -/
theorem flush_recovers_log_run : let := cksum
    let := plainCodec
    ∃ w0 ps w w' set d, boot .least empty = .ok w0 ∧
      Writer.Run .least
        (fun w q => Writer.Fit .least w q ∧ q.NoPurge) w0 ps w ∧
      ps.map Prod.fst = [.append [(1, [5]), (2, [6])], .truncate 2, .append [(2, [7])]] ∧
      Writer.flushActive w = (.ok (), w') ∧
      recover .least (Dev.ofDisk w'.dev.disk) = (.ok set, d) ∧
      set.stored d.disk = w'.wal.stored w'.dev.disk := by
  intro _ _
  obtain ⟨w0, ps, w, h0, hrun, hfst, hT⟩ := Writer.of_trial .least
    (fun w q => Writer.Fit .least w q ∧ q.NoPurge)
    [.append [(1, [5]), (2, [6])], .truncate 2, .append [(2, [7])]]
    (fun _ _ w => flushesClean w) (by decide +kernel)
  unfold flushesClean at hT
  split at hT
  · next w' hflush =>
    obtain ⟨f, ino, set, d, hf, hino, hrec, hiff⟩ :=
      @flush_recovers_log _ _ _ .least (by decide) _ _ _ _ h0 hrun hflush
    simp only [hf, hino, decide_eq_true_eq] at hT
    exact ⟨w0, ps, w, w', set, d, h0, hrun, hfst, hflush, hrec, hiff.mpr hT⟩
  · exact absurd hT (by simp)

omit [Crc] [Codec] in
/-- A truncated record is found again. -/
theorem truncate_recovers_removed : let := cksum
    let := plainCodec
    ∃ w0 ps w w' set d, boot .least empty = .ok w0 ∧
      Writer.Run .least
        (fun w q => Writer.Fit .least w q ∧ q.NoPurge) w0 ps w ∧
      ps.map Prod.fst = [.append [(1, [5]), (2, [6])], .truncate 2] ∧
      Writer.flushActive w = (.ok (), w') ∧
      recover .least (Dev.ofDisk w'.dev.disk) = (.ok set, d) ∧
      w'.wal.stored w'.dev.disk = [(1, [5])] ∧ set.stored d.disk = [(1, [5]), (2, [6])] := by
  intro _ _
  obtain ⟨w0, ps, w, h0, hrun, hfst, hT⟩ := Writer.of_trial .least
    (fun w q => Writer.Fit .least w q ∧ q.NoPurge)
    [.append [(1, [5]), (2, [6])], .truncate 2]
    (fun _ _ w => match Writer.flushActive w with
      | (.ok _, w') =>
        match recover .least (Dev.ofDisk w'.dev.disk) with
        | (.ok set, d) => decide (w'.wal.stored w'.dev.disk = [(1, [5])] ∧
            set.stored d.disk = [(1, [5]), (2, [6])])
        | (.error _, _) => false
      | (.error _, _) => false) (by decide +kernel)
  split at hT
  · next w' hflush =>
    split at hT
    · next set d hrec =>
      exact ⟨w0, ps, w, w', set, d, h0, hrun, hfst, hflush, hrec, of_decide_eq_true hT⟩
    · exact absurd hT (by simp)
  · exact absurd hT (by simp)

/-! ## Kills while the log grows -/

def isIdWrite : WalEvent → Bool
  | .write _ .id _ _ => true
  | _ => false

def commits (es : List WalEvent) : ℕ := es.countP isIdWrite

/-- The last event completes the first record of a file. -/
def HeaderDue (es : List WalEvent) : Prop :=
  ∃ ino bs, es.getLast? = some (.write ino .id offsetLogs bs)

instance (es : List WalEvent) : Decidable (HeaderDue es) :=
  decidable_of_iff ((es.getLast?.any fun
    | .write _ .id off _ => decide (off = offsetLogs)
    | _ => false) = true) (by
    rw [HeaderDue, Option.any_eq_true]
    constructor
    · rintro ⟨e, he, hid⟩
      split at hid
      · exact ⟨_, _, by rw [he, of_decide_eq_true hid]⟩
      · cases hid
    · rintro ⟨ino, bs, he⟩
      exact ⟨_, he, rfl⟩)

omit [Crc] [Codec] in
theorem commits_append (es fs : List WalEvent) : commits (es ++ fs) = commits es + commits fs :=
  countP_append

section

variable {c : Cfg} {v v' : View} {x : Label} {es : List WalEvent}

section

omit [Codec]

theorem Move.log (hm : Move c v x v') (hx : x.Keeps) :
    ∃ xs, v'.log = v.log ++ xs ∧ xs.length = commits (events [x]) := by
  cases hm with
  | removeFront | removeBack | purge | truncate => exact hx.elim
  | commit ss a e hs hp hcrc hlen hdata =>
    exact ⟨[e], by simp [View.log, hs, Slot.push], rfl⟩
  | field ss a e k off bs hs hp hf => exact ⟨[], by simp [View.log], by cases hf <;> rfl⟩
  | writeStale ino k off bs hp hi hk hlt =>
    refine ⟨[], by simp [View.log], ?_⟩
    cases k <;> first | rfl | exact absurd rfl hk
  | _ => exact ⟨[], by simp [View.log, Slot.fresh, *], rfl⟩

theorem log_of_path {ls : List Label} (hp : Path (Move c) v ls v') (hls : ∀ x ∈ ls, x.Keeps) :
    v.log <+: v'.log := by
  refine hp.invariant (I := fun ls v' => (∀ x ∈ ls, x.Keeps) → v.log <+: v'.log)
    (fun _ => prefix_rfl) (fun ls t x u ih hm hls => ?_) hls
  obtain ⟨xs, hxs, -⟩ := hm.log (hls x (by simp))
  rw [hxs]
  exact (ih fun y hy => hls y (by simp [hy])).trans (prefix_append _ _)

theorem Move.due_iff (hm : Move c v x v') (hx : x.Grow) (hv : v.Ok)
    (ih : v.phase = .due ↔ HeaderDue es) : v'.phase = .due ↔ HeaderDue (es ++ events [x]) := by
  have hevent : ∀ e : WalEvent, isIdWrite e = false → ¬ HeaderDue (es ++ [e]) := by
    rintro e he ⟨ino, bs, hl⟩
    rw [getLast?_concat] at hl
    cases hl
    cases he
  cases hm with
  | small | removeFront | removeBack | purge | truncate => exact hx.elim
  | note y hp hy => exact iff_of_false (by simp [hp]) (hevent _ rfl)
  | flush ss a ts hs hp hh => exact iff_of_false (by simp [hp]) (hevent _ rfl)
  | flushStale ino hp hi => exact iff_of_false (by simp [hp]) (hevent _ rfl)
  | writeStale ino k off bs hp hi hk hlt =>
    refine iff_of_false (by simp [hp]) (hevent _ ?_)
    cases k <;> first | rfl | exact absurd rfl hk
  | header | create => exact iff_of_false (by simp) (hevent _ rfl)
  | field ss a e k off bs hs hp hf =>
    exact iff_of_false (by simp [hp]) (hevent _ (by cases hf <;> rfl))
  | begin ss a e hs hp he hr hf =>
    refine iff_of_false (by simp) ?_
    rw [show events [Label.begin e] = [] from rfl, append_nil, ← ih]
    simp [hp]
  | number ss a b hs hp hb =>
    rw [show events [Label.number] = [] from rfl, append_nil, ← ih]
  | remap ss a ts o hs hp ho =>
    rw [show events [Label.remap] = [] from rfl, append_nil, ← ih]
  | commit ss a e hs hp hcrc hlen hdata =>
    have hok := hv.slots a (by simp [hs])
    have hnext : a.next = offsetLogs ↔ a.recs = [] := by
      rcases hok.body with ⟨hn, hvac⟩ | ⟨hne, s, hb⟩
      · exact iff_of_true hvac.next hn
      · have h1 := hb.next (a := a) rfl hne
        have h2 := add_le_endOf s hne
        have h3 := hb.le_start
        exact iff_of_false (by omega) hne
    have hdue : (if a.recs = [] then Phase.due else Phase.idle) = .due ↔ a.recs = [] := by
      split_ifs with h <;> simp [h]
    rw [hdue, ← hnext]
    constructor
    · intro h
      exact ⟨a.ino, toBe 8 e.1, by rw [← h]; exact getLast?_concat⟩
    · rintro ⟨ino, bs, hl⟩
      rw [show events [Label.event (.write a.ino .id a.next (toBe 8 e.1))] =
        [.write a.ino .id a.next (toBe 8 e.1)] from rfl, getLast?_concat] at hl
      simp only [Option.some.injEq, Event.write.injEq] at hl
      exact hl.2.2.1

end

end

def Cmd.IsAppend : Cmd → Prop
  | .append _ => True
  | _ => False

instance : ∀ q : Cmd, Decidable q.IsAppend
  | .append _ => isTrue trivial
  | .truncate _ | .purge .. | .vote _ | .sync => isFalse id

section

omit [Crc] [Codec]

theorem Label.Grow.keeps (h : x.Grow) : x.Keeps := by
  unfold Grow at h
  split at h <;> trivial

theorem Label.Start.keeps (h : x.Start) : x.Keeps := by
  rcases h with h | ⟨m, rfl⟩
  · exact h.grow.keeps
  · trivial

theorem Label.Start.not_idWrite {e : WalEvent} (h : (Label.event e).Start) :
    isIdWrite e = false := by
  rcases h with h | ⟨m, hm⟩
  · unfold Plain at h
    split at h <;> simp_all [isIdWrite]
  · cases hm
    rfl

theorem Cmd.IsAppend.labels {q : Cmd} (h : q.IsAppend) (hx : q.Labels x) : x.Grow := by
  cases q with
  | append es => exact hx
  | _ => exact h.elim

end

/-- What is known of the views between two moments of a run of appends. -/
structure Growing (v0 : View) (ls : List Label) (v : View) : Prop where
  ok : v.Ok
  grown : v.Grown
  started : v.Started
  log : ∃ xs, v.log = v0.log ++ xs ∧ xs.length = commits (events ls)
  due : v.phase = .due ↔ HeaderDue (events ls)

omit [Codec] in
theorem Growing.of_path {c : Cfg} {v0 v : View} {ls : List Label} (hp : Path (Move c) v0 ls v)
    (hls : ∀ x ∈ ls, x.Grow) (h0 : v0.Ok) (hg : v0.Grown) (hs : v0.Started)
    (hidle : v0.phase = .idle) : Growing v0 ls v := by
  refine hp.invariant (I := fun ls v => (∀ x ∈ ls, x.Grow) → Growing v0 ls v) (fun _ => ?_) ?_ hls
  · exact ⟨h0, hg, hs, ⟨[], by simp, rfl⟩,
      iff_of_false (by simp [hidle]) fun ⟨_, _, hc⟩ => by cases hc⟩
  · intro ls v x v' ih hm hls
    obtain ⟨hok, hgr, hst, ⟨xs, hlog, hxs⟩, hdue⟩ := ih fun y hy => hls y (by simp [hy])
    have hx : x.Grow := hls x (by simp)
    obtain ⟨ys, hlog', hys⟩ := hm.log hx.keeps
    refine ⟨hm.ok hok, hm.grown hx.keeps hok hgr, hm.started hx.keeps hst,
      ⟨xs ++ ys, by rw [hlog', hlog, append_assoc], ?_⟩, ?_⟩
    · rw [length_append, events_append, commits_append, hxs, hys]
    · rw [events_append]
      exact hm.due_iff hx hok hdue

/-- **Recovery after a kill at any moment of a run of appends.** The records whose id was written
are recovered, with the fields that describe them, iff the kill does not hit a file between its
first record and its header, and no ghost lies behind an empty header. -/
theorem kill_recovers_records {c c' : Cfg} (hmin : minWalSize ≤ c.walSize) {w0 w : Writer}
    {qs : List (Cmd × Reply)} (h0 : boot c empty = .ok w0)
    (hrun : Writer.Run c (fun w q => Writer.Fit c w q ∧ q.IsAppend) w0 qs w) {n : ℕ}
    (hn : w0.dev.trace.length ≤ n) :
    ∃ set d, recover c' (Dev.ofDisk (w.dev.killed n)) = (.ok set, d) ∧
      ((set.stored d.disk = (logOf (qs.map Prod.fst)).take (commits (w.dev.trace.take n)) ∧
          ∀ f ∈ set.files, f.Describes d.disk) ↔
        ¬ HeaderDue (w.dev.trace.take n) ∧ ¬ Ghost (w.dev.killed n)) := by
  obtain ⟨w1, h1, ⟨ino, hst1⟩, -, -⟩ := start_fresh c hmin
  cases h0.symm.trans h1
  -- the first start leaves one file that has not grown yet
  obtain ⟨v1, ht1, hv1, hp1, -, hhere⟩ := hst1.here
  have hok1 := ht1.ok
  obtain ⟨ls1, hpath1, hls1, htr1⟩ := ht1.path
  have hgrown1 : v1.Grown :=
    grown_of_path hpath1 (fun x hx => (hls1 x hx).keeps) View.ok_blank
      ⟨by simp [View.blank], by simp [View.blank], by simp [View.blank], by simp [View.blank]⟩
  have hquiet : ∀ e ∈ w0.dev.trace, isIdWrite e = false := by
    intro e he
    rw [htr1] at he
    exact (hls1 _ (mem_events.mp he)).not_idWrite
  obtain ⟨-, l, r, hst, -, hlog⟩ := run_stands (hhere Label.Grow)
    (ht1.reliable (Dev.reliable_ofDisk _)) (by simp [Numbered]) hrun (fun _ _ h => h.1)
    fun q hq x hx => (hrun.all (fun _ _ h => h.2) q hq).labels hx
  obtain ⟨v, ht, hv, -, -⟩ := hst.pos
  obtain ⟨u, ls, ls', hp, hp', hls, hls', htake, hkill⟩ := ht.kill ht1.disk hn
  have hu := Growing.of_path hp hls hok1 hgrown1 ⟨by simp [hv1], by simp [hp1]⟩ hp1
  obtain ⟨set, d, hrec, hiff⟩ := hu.grown.recovers (c := c') (d := Dev.ofDisk (w.dev.killed n))
    hu.started hu.ok hkill (Dev.reliable_ofDisk _)
  have hlen : u.log.length = commits (w.dev.trace.take n) := by
    obtain ⟨xs, hxs, hlen⟩ := hu.log
    have hlog1 : v1.log = [] := by rw [View.log, hv1]; rfl
    have hzero : commits w0.dev.trace = 0 :=
      countP_eq_zero.mpr fun e he => by simp [hquiet e he]
    rw [htake, commits_append, hxs, hlog1, nil_append, hlen, hzero, Nat.zero_add]
  have hfirsts : u.log = (logOf (qs.map Prod.fst)).take (commits (w.dev.trace.take n)) := by
    have hpre := log_of_path hp' fun x hx => (hls' x hx).keeps
    rw [View.log, View.log, hv, hlog] at hpre
    rw [← hlen]
    exact prefix_iff_eq_take.mp hpre
  have hdue : HeaderDue (w.dev.trace.take n) ↔ u.phase = .due := by
    rw [hu.due, htake, HeaderDue, HeaderDue]
    cases hev : (events ls).getLast? with
    | none =>
      rw [getLast?_eq_none_iff.mp hev, append_nil]
      refine iff_of_false ?_ ?_
      · rintro ⟨i, bs, hc⟩
        exact absurd (hquiet _ (mem_of_getLast? hc)) (by simp [isIdWrite])
      · rintro ⟨i, bs, hc⟩
        cases hc
    | some e => rw [getLast?_append, hev, Option.some_or]
  rw [← hfirsts, hdue, hkill]
  exact ⟨set, d, by rw [← hkill]; exact hrec, hiff⟩

omit [Crc] [Codec] in
/-- A kill before the id of the second record. -/
theorem kill_recovers_records_run : let := cksum
    let := plainCodec
    ∃ w0 ps w set d, boot .least empty = .ok w0 ∧
      Writer.Run .least
        (fun w q => Writer.Fit .least w q ∧ q.IsAppend) w0 ps w ∧
      ps.map Prod.fst = [.append [(1, [5]), (2, [6])]] ∧
      recover .least
        (Dev.ofDisk (w.dev.killed (w0.dev.trace.length + 8))) = (.ok set, d) ∧
      set.stored d.disk = [(1, [5])] ∧ ∀ f ∈ set.files, f.Describes d.disk := by
  intro _ _
  obtain ⟨w0, ps, w, h0, hrun, hfst, hT⟩ := Writer.of_trial .least
    (fun w q => Writer.Fit .least w q ∧ q.IsAppend) [.append [(1, [5]), (2, [6])]]
    (fun w0 _ w => decide (commits (w.dev.trace.take (w0.dev.trace.length + 8)) = 1 ∧
      ¬ HeaderDue (w.dev.trace.take (w0.dev.trace.length + 8)) ∧
      ¬ Ghost (w.dev.killed (w0.dev.trace.length + 8)))) (by decide +kernel)
  obtain ⟨hone, hgood⟩ := of_decide_eq_true hT
  obtain ⟨set, d, hrec, hiff⟩ := @kill_recovers_records _ _ _ .least (by decide) _ _
    _ h0 hrun _ (Nat.le_add_right _ 8)
  obtain ⟨hlog, hdesc⟩ := hiff.mpr hgood
  refine ⟨w0, ps, w, set, d, h0, hrun, hfst, hrec, ?_, hdesc⟩
  rw [hlog, hone, hfst]
  rfl

omit [Crc] [Codec] in
/-- A kill between the first record of a file and its header loses the record. -/
theorem kill_loses_first_record : let := cksum
    let := plainCodec
    ∃ w0 ps w set d, boot .least empty = .ok w0 ∧
      Writer.Run .least
        (fun w q => Writer.Fit .least w q ∧ q.IsAppend) w0 ps w ∧
      ps.map Prod.fst = [.append [(1, replicate 32 5)]] ∧
      commits (w.dev.trace.take (w0.dev.trace.length + 4)) = 1 ∧
      recover .least
        (Dev.ofDisk (w.dev.killed (w0.dev.trace.length + 4))) = (.ok set, d) ∧
      set.stored d.disk = [] := by
  intro _ _
  obtain ⟨w0, ps, w, h0, hrun, hfst, hT⟩ := Writer.of_trial .least
    (fun w q => Writer.Fit .least w q ∧ q.IsAppend) [.append [(1, replicate 32 5)]]
    (fun w0 _ w => match recover .least
        (Dev.ofDisk (w.dev.killed (w0.dev.trace.length + 4))) with
      | (.ok set, d) => decide (commits (w.dev.trace.take (w0.dev.trace.length + 4)) = 1 ∧
          set.stored d.disk = [])
      | (.error _, _) => false) (by decide +kernel)
  split at hT
  · next set d hrec =>
    obtain ⟨hone, hlog⟩ := of_decide_eq_true hT
    exact ⟨w0, ps, w, set, d, h0, hrun, hfst, hone, hrec, hlog⟩
  · exact absurd hT (by simp)

end Hiqlite.Wal
