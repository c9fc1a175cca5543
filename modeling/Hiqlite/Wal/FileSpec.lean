import Hiqlite.Wal.JournalOk

/-!
# W8 — what the operations of one file do

* `Tracks`, `At`, `Fails`, **`Tracks.kill`**: a device follows a path of moves;
* **`appendLog_tracks`**: an append is a path that adds one record.
-/

namespace Hiqlite.Wal

open List Option Exec Region

variable [Crc]

/-! ## Kinds of moves -/

def Label.Grow : Label → Prop
  | .event (.write ..) | .event (.create ..) | .event (.flush _) => True
  | .event (.note (.callback _)) | .event (.note (.publish _)) => True
  | .begin _ | .number | .remap => True
  | _ => False

def Label.Shrink : Label → Prop
  | .event (.write _ .header _ _) | .event (.create ..) | .event (.flush _) => True
  | .event (.remove _) => True
  | .remap | .purge | .truncate => True
  | _ => False

def Label.Beside : Label → Prop
  | .event (.small _) | .event (.note (.remove ..)) | .event (.note (.publish _)) => True
  | _ => False

def Label.Plain : Label → Prop
  | .event (.write _ .header _ _) | .event (.create ..) | .event (.flush _) => True
  | .remap => True
  | _ => False

variable {l : Label} {c : Cfg} {v v0 : View} {d0 d : WalDev}

omit [Crc] in
theorem Label.Plain.grow (h : l.Plain) : l.Grow := by
  unfold Plain at h
  split at h <;> trivial

omit [Crc] in
theorem Label.Plain.shrink (h : l.Plain) : l.Shrink := by
  unfold Plain at h
  split at h <;> trivial

/-! ## Following a path -/

/-- From `d0` to `d` the device did what a path of moves from `v0` to `v` says. -/
structure Tracks (c : Cfg) (P : Label → Prop) (v0 : View) (d0 : WalDev) (v : View) (d : WalDev) :
    Prop where
  path : ∃ ls, Path (Move c) v0 ls v ∧ (∀ l ∈ ls, P l) ∧ d.trace = d0.trace ++ events ls
  disk : d.disk = v.disk
  base : d.base = d0.base
  fault : d.fault = d0.fault
  start : v0.Ok
  min : minWalSize ≤ c.walSize

omit [Crc] in
theorem events_append (ls ls' : List Label) : events (ls ++ ls') = events ls ++ events ls' :=
  filterMap_append ..

omit [Crc] in
theorem mem_events {e : WalEvent} {ls : List Label} : e ∈ events ls ↔ Label.event e ∈ ls := by
  constructor
  · intro h
    obtain ⟨x, hx, hxe⟩ := mem_filterMap.mp h
    cases x with
    | event e' => cases hxe; exact hx
    | _ => cases hxe
  · exact fun h => mem_filterMap.mpr ⟨_, h, rfl⟩

theorem Move.disk {v' : View} (hm : Move c v l v') : v'.disk = replay v.disk (events [l]) := by
  cases hm <;> rfl

theorem replay_of_path {v' : View} {ls : List Label} (h : Path (Move c) v ls v') :
    v'.disk = replay v.disk (events ls) := by
  refine h.invariant (I := fun ls v' => v'.disk = replay v.disk (events ls)) rfl ?_
  intro ls t l u ht hm
  rw [events_append, replay_append, ← ht, hm.disk]

namespace Tracks

variable {c : Cfg} {P P' : Label → Prop} {v0 v v' v1 : View} {d0 d d' d1 : WalDev}

theorem refl (h : d.disk = v.disk) (hv : v.Ok) (hmin : minWalSize ≤ c.walSize) :
    Tracks c P v d v d :=
  ⟨⟨[], .nil, by simp, by simp [events]⟩, h, rfl, rfl, hv, hmin⟩

section

variable (h : Tracks c P v0 d0 v d)
include h

theorem trans (h' : Tracks c P v d v' d') : Tracks c P v0 d0 v' d' := by
  obtain ⟨ls, hp, hl, ht⟩ := h.path
  obtain ⟨ls', hp', hl', ht'⟩ := h'.path
  refine ⟨⟨ls ++ ls', hp.trans hp', fun l hm => ?_, ?_⟩, h'.disk, h'.base.trans h.base,
    h'.fault.trans h.fault, h.start, h.min⟩
  · exact (mem_append.mp hm).elim (hl l) (hl' l)
  · rw [ht', ht, events_append, append_assoc]

theorem mono (hP : P ≤ P') : Tracks c P' v0 d0 v d := by
  obtain ⟨ls, hp, hl, ht⟩ := h.path
  exact { h with path := ⟨ls, hp, fun l hm => hP l (hl l hm), ht⟩ }

theorem tick : Tracks c P v0 d0 v d.tick :=
  { h with }

theorem event {e : WalEvent} (hm : Move c v (.event e) v') (he : P (.event e)) :
    Tracks c P v0 d0 v' (d.emit e) := by
  obtain ⟨ls, hp, hl, ht⟩ := h.path
  refine { h with path := ⟨ls ++ [.event e], hp.snoc hm, fun l hm => ?_, ?_⟩, disk := ?_ }
  · rcases mem_append.mp hm with hm | hm
    · exact hl l hm
    · rw [mem_singleton.mp hm]
      exact he
  · rw [Dev.emit_trace, ht, events_append, append_assoc]
    rfl
  · rw [hm.disk, Dev.emit_disk, h.disk]
    rfl

theorem silent {l : Label} (hm : Move c v l v') (hl : events [l] = []) (hP : P l) :
    Tracks c P v0 d0 v' d := by
  obtain ⟨ls, hp, hls, ht⟩ := h.path
  refine { h with path := ⟨ls ++ [l], hp.snoc hm, fun l' hm => ?_, ?_⟩, disk := ?_ }
  · rcases mem_append.mp hm with hm | hm
    · exact hls l' hm
    · rw [mem_singleton.mp hm]
      exact hP
  · rw [ht, events_append, hl, append_nil]
  · rw [hm.disk, hl, h.disk]
    rfl

theorem ok : v.Ok := by
  obtain ⟨ls, hp, -, -⟩ := h.path
  exact ok_of_path hp h.start

theorem here : Tracks c P' v d v d :=
  .refl h.disk h.ok h.min

theorem small (hP : ∀ m, ¬ P (.event (.small m))) (hd : d0.disk = v0.disk) :
    d.disk.small = d0.disk.small := by
  obtain ⟨ls, hp, hls, -⟩ := h.path
  have key : ∀ ls v, Path (Move c) v0 ls v → (∀ l ∈ ls, P l) → v.disk.small = v0.disk.small := by
    intro ls v hp
    refine hp.invariant (I := fun ls v => (∀ l ∈ ls, P l) → v.disk.small = v0.disk.small)
      (fun _ => rfl) fun ls t l u ih hm hls => ?_
    rw [← ih fun x hx => hls x (by simp [hx])]
    have hl := hls l (by simp)
    cases hm with
    | small m => exact absurd hl (hP m)
    | _ => rfl
  rw [h.disk, hd, key ls v hp hls]

theorem kill (hd : d0.disk = v0.disk) {n : ℕ} (hn : d0.trace.length ≤ n) :
    ∃ u ls ls', Path (Move c) v0 ls u ∧ Path (Move c) u ls' v ∧ (∀ l ∈ ls, P l) ∧
      (∀ l ∈ ls', P l) ∧ d.trace.take n = d0.trace ++ events ls ∧ d.killed n = u.disk := by
  obtain ⟨ls, hp, hls, ht⟩ := h.path
  obtain ⟨m, hm⟩ : ∃ m, events (ls.take m) = (events ls).take (n - d0.trace.length) :=
    exists_take_filterMap _ ls _
  obtain ⟨u, h1, h2⟩ := hp.cut m
  have htake : d.trace.take n = d0.trace ++ events (ls.take m) := by
    rw [ht, take_append, take_of_length_le hn]
    exact congrArg _ hm.symm
  refine ⟨u, _, _, h1, h2, fun l hl => hls l (mem_of_mem_take hl),
    fun l hl => hls l (mem_of_mem_drop hl), htake, ?_⟩
  rw [Dev.killed, htake, h.base, replay_append, ← d0.disk_eq, hd, replay_of_path h1]

theorem reliable (hd : d0.Reliable) : d.Reliable := by
  unfold Dev.Reliable
  rw [h.fault]
  exact hd

end

end Tracks

/-- The device is at the files `l`, between two operations. -/
def At (c : Cfg) (P : Label → Prop) (v0 : View) (d0 : WalDev) (l : List Slot) (r : ℕ × ℕ)
    (d : WalDev) : Prop :=
  ∃ v, Tracks c P v0 d0 v d ∧ v.slots = l ∧ v.phase = .idle ∧ v.request = r

/-- An operation was stopped by `e`. Unless a system call failed, `X` says by what. -/
structure Fails (c : Cfg) (P : Label → Prop) (v0 : View) (d0 : WalDev) (X : Stop → Prop) (e : Stop)
    (d : WalDev) : Prop where
  tracks : ∃ v, Tracks c P v0 d0 v d
  stop : X e ∨ ∃ i < d.calls, d0.fault i = true

theorem Fails.of_reliable {P : Label → Prop} {X : Stop → Prop} {e : Stop}
    (h : Fails c P v0 d0 X e d) (hd : d0.Reliable) : X e := by
  refine h.stop.resolve_right fun ⟨i, _, hi⟩ => ?_
  rw [Dev.Reliable] at hd
  rw [hd] at hi
  exact absurd hi (by simp)

theorem Tracks.fails {P : Label → Prop} {X : Stop → Prop} {e : Stop} (h : Tracks c P v0 d0 v d)
    (hf : d.fault d.calls = true) : Fails c P v0 d0 X e d.tick :=
  ⟨⟨v, h.tick⟩, .inr ⟨d.calls, Nat.lt_succ_self _, by rw [← h.fault]; exact hf⟩⟩

namespace At

variable {c : Cfg} {P P' : Label → Prop} {v0 : View} {d0 d : WalDev} {l l' : List Slot} {a : Slot}
  {r : ℕ × ℕ} {X : Stop → Prop} {e : Stop}

theorem mono (h : At c P v0 d0 l r d) (hP : P ≤ P') : At c P' v0 d0 l r d := by
  obtain ⟨v, ht, hv⟩ := h
  exact ⟨v, ht.mono hP, hv⟩

theorem trans {v : View} {d1 : WalDev} (h : Tracks c P v0 d0 v d1) (h' : At c P v d1 l r d) :
    At c P v0 d0 l r d := by
  obtain ⟨v', ht, hv⟩ := h'
  exact ⟨v', h.trans ht, hv⟩

section

variable (h : At c P v0 d0 l r d)
include h

theorem tick : At c P v0 d0 l r d.tick := by
  obtain ⟨v, ht, hv⟩ := h
  exact ⟨v, ht.tick, hv⟩

theorem fails (hf : d.fault d.calls = true) : Fails c P v0 d0 X e d.tick := by
  obtain ⟨v, ht, -⟩ := h
  exact ht.fails hf

theorem min : minWalSize ≤ c.walSize := by
  obtain ⟨v, ht, -⟩ := h
  exact ht.min

theorem view : ∃ v : View, v.Ok ∧ v.slots = l ∧ v.phase = .idle ∧ v.disk = d.disk := by
  obtain ⟨v, ht, hv, hp, -⟩ := h
  exact ⟨v, ht.ok, hv, hp, ht.disk.symm⟩

theorem slot (ha : a ∈ l) : a.Ok d.disk := by
  obtain ⟨v, hok, hv, -, hd⟩ := h.view
  rw [← hd]
  exact hok.slots a (by rwa [hv])

theorem lookup (ha : a ∈ l) : d.disk.lookup a.file.walNo = some a.ino := by
  obtain ⟨v, hok, hv, -, hd⟩ := h.view
  rw [← hd]
  exact hok.lookup (by rwa [hv])

theorem mmapMut (ha : a ∈ l) (hm : a.file.mmapMut.isSome) : a.file.mmapMut = some a.ino := by
  obtain ⟨i, hi⟩ := isSome_iff_exists.mp hm
  rw [hi, (h.slot ha).mapped i hi]

theorem silent {x : Label} (hl : events [x] = []) (hP : P x)
    (hm : ∀ v : View, v.slots = l → v.phase = .idle → v.request = r → v.disk = d.disk →
      Move c v x { v with slots := l' }) : At c P v0 d0 l' r d := by
  obtain ⟨v, ht, hv, hp, hr⟩ := h
  exact ⟨_, ht.silent (hm v hv hp hr ht.disk.symm) hl hP, rfl, hp, hr⟩

end

end At

/-! ## Rules -/

namespace WalFile

variable {f : WalFile} {d : WalDev} {ino : ℕ} {E : Stop → WalFile × WalDev → Prop}
  {Q : Unit → WalFile × WalDev → Prop}

section

omit [Crc]

@[simp] theorem wp_onDev {α : Type} {x : Exec WalDev Stop α} {Q : α → WalFile × WalDev → Prop} :
    wp (onDev x) Q E (f, d) ↔
      wp x (fun a d' => Q a (f, d')) (fun e d' => E e (f, d')) d :=
  wp_zoom

@[simp] theorem wp_modifyFile {g : WalFile → WalFile} :
    wp (modifyFile g) Q E (f, d) ↔ Q () (g f, d) := Iff.rfl

theorem wp_writeSlice {kind : WriteKind} {lo hi : ℕ} {bs : Bytes} (hmut : f.mmapMut = some ino)
    (hlo : lo ≤ hi) (hhi : hi ≤ (d.disk.inode ino).len) (hbs : bs.length ≤ hi - lo) :
    wp (writeSlice kind lo hi bs) Q E (f, d) ↔
      Q () (f, d.emit (.write ino kind lo bs)) := by
  simp only [writeSlice, wp_bind, wp_get, hmut, unwrap_some, wp_pure,
    wp_ite, wp_modify]
  rw [if_neg (by omega), if_neg (by omega), take_of_length_le hbs]

theorem wp_updateHeader (hmut : f.mmapMut = some ino) (hlen : offsetLogs ≤ (d.disk.inode ino).len) :
    wp updateHeader Q E (f, d) ↔
      Q () (f, d.emit (.write ino .header 0 (buildHeader f.toHeader))) := by
  simp only [updateHeader, wp_bind, wp_get]
  exact wp_writeSlice hmut (Nat.zero_le _) (by rw [length_buildHeader]; exact hlen) le_rfl

theorem wp_flush (hmut : f.mmapMut = some ino) : wp flush Q E (f, d) ↔
      if d.fault d.calls then E (.err (.io .other)) (f, d.tick)
      else Q () (f, d.tick.emit (.flush ino)) := by
  simp only [flush, wp_bind, wp_get, hmut, unwrap_some, wp_pure, wp_onDev,
    Dev.wp_sys]

theorem wp_openMmapMut (hlook : d.disk.lookup f.walNo = some ino) : wp openMmapMut Q E (f, d) ↔
      if f.mmapMut.isSome then Q () (f, d)
      else if d.fault d.calls then E (.err (.io .other)) (f, d.tick)
      else Q () ({ f with mmapMut := some ino }, d.tick) := by
  simp only [openMmapMut, openFile, wp_bind, wp_get, wp_ite, wp_pure, wp_onDev,
    Dev.wp_ask, Dev.tick_disk, hlook, unwrap_some, wp_modifyFile]

theorem wp_openMmap (hlook : d.disk.lookup f.walNo = some ino) : wp openMmap Q E (f, d) ↔
      if f.mmap.isSome then Q () (f, d)
      else if d.fault d.calls then E (.err (.io .other)) (f, d.tick)
      else Q () ({ f with mmap := some ino }, d.tick) := by
  simp only [openMmap, openFile, wp_bind, wp_get, wp_ite, wp_pure, wp_onDev,
    Dev.wp_ask, Dev.tick_disk, hlook, unwrap_some, wp_modifyFile]

theorem wp_createFile (hlook : d.disk.lookup f.walNo = none) : wp createFile Q E (f, d) ↔
      if d.fault d.calls then E (.err (.io .other)) (f, d.tick)
      else
        let d1 := d.tick.emit (.create f.walNo f.lenMax)
        if d1.fault d1.calls then E (.err (.io .other)) (f, d1.tick)
        else
          let d2 := d1.tick.emit (.write d.disk.next .header 0 (buildHeader f.toHeader))
          if d2.fault d2.calls then E (.err (.io .other)) (f, d2.tick)
          else Q () (f, d2.tick) := by
  simp only [createFile, wp_bind, wp_get, hlook, isSome_none,
    Bool.false_eq_true, if_false, wp_onDev, Dev.wp_sys, Dev.wp_ask, wp_modify]

theorem wp_drop_none (hmut : f.mmapMut = none) : wp drop Q E (f, d) ↔ Q () (f, d) := by
  simp [drop, hmut]

theorem wp_drop_some (hmut : f.mmapMut = some ino) (hlen : offsetLogs ≤ (d.disk.inode ino).len) :
    wp drop Q E (f, d) ↔
      let d1 := d.emit (.write ino .header 0 (buildHeader f.toHeader))
      if d1.fault d1.calls then E (.panic .unwrapRes) (f, d1.tick)
      else Q () (f, d1.tick.emit (.flush ino)) := by
  simp only [drop, wp_bind, wp_get, hmut, isSome_some, if_true,
    wp_updateHeader hmut hlen, wp_attempt, wp_flush hmut, wp_stop, wp_pure]

end

end WalFile

/-! ## Appending -/

def Slot.written (a : Slot) (e : Entry) (d : WalDev) : WalDev :=
  (((d.emit (.write a.ino .crc (a.next + 8) (crcBytes e.2))).emit
    (.write a.ino .len (a.next + 12) (toBe 4 e.2.length))).emit
    (.write a.ino .data (a.next + 16) e.2)).emit (.write a.ino .id a.next (toBe 8 e.1))

theorem WalFile.wp_appendLog {a : Slot} {e : Entry} {E : Stop → WalFile × WalDev → Prop}
    {Q : Unit → WalFile × WalDev → Prop} (ha : a.Ok d.disk) (hmut : a.file.mmapMut = some a.ino)
    (hroom : a.Room e) : wp (appendLog e.1 e.2) Q E (a.file, d) ↔
      Q () ((a.push e).file,
        if a.recs = [] then
          (a.written e d).emit (.write a.ino .header 0 (buildHeader (a.push e).file.toHeader))
        else a.written e d) := by
  have hlt := ha.lenMax_lt
  have hlen := ha.len
  rw [Slot.Room] at hroom
  have hmod : (a.next + 8 + 4 + 4 + e.2.length) % 2 ^ 32 = a.next + 16 + e.2.length := by
    rw [Nat.mod_eq_of_lt (by omega)]
  -- the writes, once the start is known
  have hwrites : ∀ (g : WalFile) (k : FileM Unit), g.mmapMut = some a.ino →
      (wp (writeSlice .crc (a.next + 8) (a.next + 8 + 8) (crcBytes e.2)) (fun _ =>
        wp (do
          writeSlice .len (a.next + 8 + 4) (a.next + 8 + 4 + 4) (toBe 4 e.2.length)
          writeTail .data (a.next + 8 + 4 + 4) e.2
          writeSlice .id a.next (a.next + 8) (toBe 8 e.1)
          k) Q E) E (g, d) ↔ wp k Q E (g, a.written e d)) := by
    intro g k hg
    rw [wp_writeSlice hg (by omega) (by omega) (by simp), wp_bind,
      wp_writeSlice hg (by omega) (by simp [hlen]; omega) (by simp)]
    simp only [writeTail, wp_bind, wp_get, hg, unwrap_some, wp_pure]
    rw [wp_writeSlice hg (by simp [hlen]; omega) le_rfl (by simp [hlen]; omega), wp_bind,
      wp_writeSlice hg (by omega) (by simp [hlen]; omega) (by simp)]
    simp only [Slot.written, Nat.add_assoc]
  rcases ha.body with ⟨hnil, hv⟩ | ⟨hne, s, hs⟩
  · have hnext := hv.next
    rw [hnext] at hwrites hmod
    simp only [appendLog, wp_bind, wp_get, hv.start, isNone_none, if_true,
      wp_modifyFile, wp_pure]
    rw [hwrites { a.file with idFrom := e.1, dataStart := some offsetLogs } _ hmut, wp_bind,
      wp_modifyFile, hmod]
    have hupd : ∀ g : WalFile, g.mmapMut = some a.ino →
        (wp updateHeader Q E (g, a.written e d) ↔
          Q () (g, (a.written e d).emit (.write a.ino .header 0 (buildHeader g.toHeader)))) :=
      fun g hg => wp_updateHeader hg (by
        simp only [Slot.written, Dev.emit_disk, apply_write_len, hlen]
        omega)
    have hpush : ({ a.file with
        idFrom := e.1
        idUntil := e.1
        dataStart := some offsetLogs
        dataEnd := some (offsetLogs + 16 + e.2.length) } : WalFile) = (a.push e).file := by
      simp [Slot.push, hv.start, hnext]
    rw [if_pos hnil]
    simp only [hpush]
    exact hupd (a.push e).file hmut
  · have hnext := hs.next (a := a) rfl hne
    have hstop : a.file.dataEnd = some (a.next - 1) := by rw [hs.stop, hnext]
    have hpos : a.next - 1 + 1 = a.next := by
      have := ha.offsetLogs_le_next
      rw [offsetLogs] at this
      omega
    simp only [appendLog, wp_bind, wp_get, hs.start, isNone_some,
      Bool.false_eq_true, if_false, wp_pure, hstop, unwrap_some, hpos]
    rw [hwrites _ _ hmut, wp_bind, wp_modifyFile, wp_pure, hmod]
    simp [Slot.push, hs.start, hne]

/-- The file behind an append of `e` and, for its first record, of the header. -/
def Slot.pushed (a : Slot) (e : Entry) : Slot :=
  if a.recs = [] then { a.push e with hdr := some (a.push e).file.toHeader, pre := [] }
  else a.push e

theorem appendLog_tracks {ss : List Slot} {a : Slot} {e : Entry}
    (ht : Tracks c Label.Grow v0 d0 v d) (hv : v.slots = ss ++ [a]) (hp : v.phase = .idle)
    (he : EntryOk e) (hroom : a.Room e) (hf : Follows ss a e) : ∃ v', Tracks c Label.Grow v0 d0 v'
        (if a.recs = [] then
          (a.written e d).emit (.write a.ino .header 0 (buildHeader (a.push e).file.toHeader))
        else a.written e d) ∧
      v'.slots = ss ++ [a.pushed e] ∧ v'.phase = .idle ∧ v'.request = v.request := by
  have t1 := ht.silent (.begin v ss a e hv hp he hroom hf) rfl trivial
  have t2 := t1.event (.field _ ss a e _ _ _ hv rfl .crc) trivial
  have t3 := t2.event (.field _ ss a e _ _ _ hv rfl .len) trivial
  have t4 := t3.event (.field _ ss a e _ _ _ hv rfl .data) trivial
  have hcl := length_crcBytes e.2
  have hll := length_toBe 4 e.2.length
  have t5 := t4.event (.commit _ ss a e hv rfl
    (by
      simp only [Slot.bytes, apply_write_bytes_self]
      rw [read_write_of_disjoint (by omega), read_write_of_disjoint (by omega),
        read_write_of_length hcl])
    (by
      simp only [Slot.bytes, apply_write_bytes_self]
      rw [read_write_of_disjoint (by omega), read_write_of_length hll])
    (by
      simp only [Slot.bytes, apply_write_bytes_self]
      rw [read_write_self])) trivial
  by_cases hnil : a.recs = []
  · have t6 := t5.event (.header _ ss (a.push e) [] rfl (.inr ⟨.inl (if_pos hnil), rfl⟩)) trivial
    rw [if_pos hnil, Slot.pushed, if_pos hnil]
    exact ⟨_, t6, rfl, rfl, rfl⟩
  · rw [if_neg hnil, Slot.pushed, if_neg hnil]
    exact ⟨_, t5, rfl, if_neg hnil, rfl⟩

end Hiqlite.Wal
