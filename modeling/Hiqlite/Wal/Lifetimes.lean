import Hiqlite.Wal.Refine
import Hiqlite.Wal.Restart

/-!
# W22 — a log store over its lifetimes

A log store is started, serves requests, and is shut down or killed, again and again, each time
with a configuration of its own.

* `Alive`: the invariant, **`alive_of_path`**;
* **`truncate_effective_iff`**; `truncate_ignored`;
* **`active_writable`**: the active file stays writable; `truncate_unmaps`;
* **`restart_preserves_log`**: a graceful restart finds the log again; `oversized_breaks_chain`.
-/

namespace Hiqlite.Wal

open Exec WalFile WalDisk
open List hiding set

variable [Crc]

/-! ## Turns -/

/-- A process: how it was started, and its writer. -/
structure Store where
  cfg : Cfg
  writer : Writer

/-- What happens to a log store: a request, a graceful restart, or a kill in a request or in the
shutdown, and the next start. -/
inductive Turn where
  | request (q : Cmd)
  | restart (c : Cfg)
  | kill (q : Option Cmd) (n : ℕ) (c : Cfg)

namespace Store

/-- The device behind a request, or behind the shutdown, however it ended. -/
def during (s : Store) : Option Cmd → WalDev
  | some q => (Writer.step s.cfg q.action s.writer).2.dev
  | none => (Writer.shutdown s.writer).2.dev

def log (s : Store) : List Entry := s.writer.wal.stored s.writer.dev.disk

end Store

def reboot [Codec] (c : Cfg) (d : WalDisk) : Option Store :=
  (boot c d).toOption.map fun w => ⟨c, w⟩

/-- **One turn.** A kill comes after the `n`-th event of the process. -/
def Turn.exec [Codec] : Turn → Store → Option Store
  | request q, s =>
    match Writer.step s.cfg q.action s.writer with
    | (.ok _, w) => some ⟨s.cfg, w⟩
    | (.error _, _) => none
  | restart c, s =>
    match Writer.shutdown s.writer with
    | (.ok _, w) => reboot c w.dev.disk
    | (.error _, _) => none
  | kill q n c, s =>
    if s.writer.dev.trace.length ≤ n then reboot c ((s.during q).killed n) else none

/-- The next process can take over: every file has its header, and that of the last one describes
its records, also behind the deep check. -/
@[mk_iff]
structure Sound (d : WalDisk) : Prop where
  headers : ∀ p ∈ d.dir, (readFromFile p.1 p.2 d).isOk = true
  last : ∀ f ∈ (WalFileSet.readDir d).getLast?, ∀ ino ∈ d.lookup f.walNo,
    Body (d.inode ino).bytes f.lenMax f.toHeader (f.stored d) ∧
    Body (d.inode ino).bytes f.lenMax
      (f.adopt f.scanFrom (strays (d.inode ino).bytes f.lenMax f.toHeader)).toHeader
      (f.stored d ++ strays (d.inode ino).bytes f.lenMax f.toHeader)

instance (d : WalDisk) : Decidable (Sound d) := decidable_of_iff' _ (sound_iff d)

namespace Store

/-- The requests fit, every process has a `wal_size` that is allowed, and kills leave sound files
behind. -/
def Fit (s : Store) : Turn → Prop
  | .request q => Writer.Fit s.cfg s.writer q
  | .restart c => minWalSize ≤ c.walSize
  | .kill q n c => (∀ q' ∈ q, Writer.Fit s.cfg s.writer q') ∧ minWalSize ≤ c.walSize ∧
      Sound ((s.during q).killed n)

instance (s : Store) : ∀ t, Decidable (s.Fit t)
  | .request q => inferInstanceAs (Decidable (Writer.Fit s.cfg s.writer q))
  | .restart c => inferInstanceAs (Decidable (minWalSize ≤ c.walSize))
  | .kill q n c => inferInstanceAs (Decidable ((∀ q' ∈ q, Writer.Fit s.cfg s.writer q') ∧
      minWalSize ≤ c.walSize ∧ Sound ((s.during q).killed n)))

end Store

/-- Turns that meet the condition `C`, one after the other. -/
abbrev Lifetimes [Codec] (C : Store → Turn → Prop) : Store → List Turn → Store → Prop :=
  Path fun s t s' => C s t ∧ t.exec s = some s'

/-! ## The invariant -/

/-- The log store stands at the files `l`. -/
structure Alive (s : Store) (l : List Slot) : Prop where
  up : s.writer.Up s.cfg l
  backed : Backed l

def Slot.content (a : Slot) : List Entry × Header := (a.recs, a.file.toHeader)

omit [Crc] in
theorem recs_of_content {l l' : List Slot} (h : l'.map Slot.content = l.map Slot.content) :
    l'.flatMap Slot.recs = l.flatMap Slot.recs := by
  have := congrArg (flatMap Prod.fst) h
  rwa [flatMap_map, flatMap_map] at this

omit [Crc] in
theorem numbered_of_content {l l' : List Slot} (h : l'.map Slot.content = l.map Slot.content)
    (hn : Numbered l) : Numbered l' := by
  intro b hb
  have hmap := congrArg (fun l => (getLast? (tail l))) h
  simp only [← map_tail, getLast?_map, Option.mem_def.mp hb, Option.map_some] at hmap
  obtain ⟨a, ha, hab⟩ := Option.map_eq_some_iff.mp hmap.symm
  obtain ⟨hrecs, hhdr⟩ := Prod.mk.inj hab
  rintro ⟨h1, h2⟩
  exact hn a ha ⟨hrecs.trans h1, hhdr.trans h2⟩

def Cmd.Stuck (l : List Slot) : Cmd → Prop
  | truncate k => ¬ Numbered l ∧ ∀ a ∈ l.head?, a.file.idFrom < k
  | _ => False

/-- What a request comes to: a truncation that is stopped only flushes. -/
def Cmd.Acts (l : List Slot) (q q' : Cmd) : Prop :=
  q' = q ∧ ¬ q.Stuck l ∨ q' = .sync ∧ q.Stuck l

section

variable {c : Cfg} {P : Label → Prop} {v0 : View} {d0 : WalDev} {r : ℕ × ℕ} {X : Stop → Prop}
  {l : List Slot} {w : Writer} {q : Cmd} {s s' : Store}

theorem Writer.step_acts (h : w.Stands c P v0 d0 l r) (hrel : d0.Reliable)
    (hP : ∀ x, P x) (hX : X (.panic .sliceIndex))
    (hX' : ∀ e, ¬ X (.err e)) (hm : LastMapped l ∨ ∀ p, X (.panic p))
    (hq : Writer.Fit c w q) : wp (step c q.action)
      (fun reply w' => reply.ack = .ok () ∧
        ∃ q', q.Acts l q' ∧ ∃ l', After c P v0 d0 X w l q' l' w')
      (fun e w' => Fails c P v0 d0 X e w'.dev) w := by
  suffices hacts : ∃ q', q.Acts l q' ∧ wp (step c q.action)
      (fun reply w' => reply.ack = .ok () ∧ ∃ l', After c P v0 d0 X w l q' l' w')
      (fun e w' => Fails c P v0 d0 X e w'.dev) w by
    obtain ⟨q', hq', h⟩ := hacts
    exact wp_imp h fun reply w' h => ⟨h.1, q', hq', h.2⟩
  have hother := step_spec (q := q) h hrel (fun x _ => hP x) hX hX' hm
  cases q with
  | append es => exact ⟨_, .inl ⟨rfl, id⟩, hother (h.batchOk hq)⟩
  | purge | vote | sync => exact ⟨_, .inl ⟨rfl, id⟩, hother trivial⟩
  | truncate k =>
    by_cases hs : (Cmd.truncate k).Stuck l
    · exact ⟨_, .inr ⟨rfl, hs⟩, truncate_stuck h hrel (fun x _ => hP x) hX' hm hs.1 hs.2⟩
    · refine ⟨_, .inl ⟨rfl, hs⟩, truncate_after h hrel (fun x _ => hP x) hX' hm ?_⟩
      by_contra hc
      push Not at hc
      obtain ⟨hn, a, ha, hlt⟩ := hc
      refine hs ⟨hn, fun b hb => ?_⟩
      cases ha.symm.trans hb
      exact hlt

/-- What is left of a request that was answered. -/
structure Served (X : Stop → Prop) (l : List Slot) (q : Cmd) (l' : List Slot) : Prop where
  mapped : q.Keeps l → LastMapped l' ∨ ∀ p, X (.panic p)
  numbered : Numbered l → Numbered l'
  recs : ∃ q', q.Acts l q' ∧ l'.flatMap Slot.recs = q'.apply (l.flatMap Slot.recs)

theorem Alive.request (h : Alive s l) (hX : X (.panic .sliceIndex)) (hX' : ∀ e, ¬ X (.err e))
    (hm : LastMapped l ∨ ∀ p, X (.panic p)) (hq : Writer.Fit s.cfg s.writer q) :
    wp (Writer.step s.cfg q.action)
      (fun reply w => reply.ack = .ok () ∧ ∃ l', Alive ⟨s.cfg, w⟩ l' ∧ Served X l q l')
      (fun e _ => X e) s.writer := by
  obtain ⟨v0, d0, r, hrel, hst⟩ := h.up
  refine wp_mono (Writer.step_acts hst hrel (fun _ => trivial) hX hX' hm hq) ?_
    fun e w' he => he.of_reliable hrel
  rintro reply w ⟨hack, q', hq', l', hl'⟩
  obtain ⟨r', hst'⟩ := hl'.stands
  refine ⟨hack, l', ⟨⟨v0, d0, r', hrel, hst'⟩, hl'.backed h.backed⟩, fun hk => ?_,
    hl'.numbered, q', hq', hl'.recs⟩
  refine hl'.mapped ?_
  rcases hq' with ⟨rfl, -⟩ | ⟨rfl, -⟩
  · exact hk
  · trivial

theorem Alive.shutdown (h : Alive s l) (hm : LastMapped l ∨ ∀ p, X (.panic p)) : wp Writer.shutdown
      (fun _ w => w.dev.disk.small.lockFile = false ∧ ∃ l', ∃ v : View, v.Ok ∧ v.slots = l' ∧
        v.phase = .idle ∧ v.disk = w.dev.disk ∧ (∀ a ∈ l', a.Found) ∧
        l'.map Slot.content = l.map Slot.content)
      (fun e _ => X e) s.writer := by
  obtain ⟨v0, d0, r, hrel, hst⟩ := h.up
  refine wp_mono (Writer.shutdown_spec hst (fun _ _ => trivial) (fun _ => trivial) hm
    h.backed) ?_ fun e w' he => he.of_reliable hrel
  rintro - w ⟨hlock, l', hat, hfile, hrecs, hhdr⟩
  obtain ⟨v, hv, rfl, hidle, hdisk⟩ := hat.view
  refine ⟨hlock, v.slots.map fun a => a.reread a.file.toHeader a.recs, _,
    hv.reread (l := v.slots.map fun a => a.reread a.file.toHeader a.recs) ?_ (0, 0), rfl, rfl,
    hdisk, ?_, ?_⟩
  · exact List.forall₂_map_right_iff.mpr (List.forall₂_same.mpr fun a ha =>
      ⟨_, _, hhdr a ha, (hv.slots a ha).body, rfl⟩)
  · intro b hb
    obtain ⟨a, -, rfl⟩ := mem_map.mp hb
    exact ⟨rfl, rfl, rfl, rfl⟩
  · have hzip := congrArg₂ zip hrecs (congrArg (map toHeader) hfile)
    rw [map_map, map_map, zip_map', zip_map'] at hzip
    rw [map_map]
    exact hzip

theorem Alive.ne_nil (h : Alive s l) {l' : List Slot}
    (hl : l'.map Slot.content = l.map Slot.content) : l' ≠ [] := by
  rintro rfl
  obtain ⟨v0, d0, r, -, hst⟩ := h.up
  exact hst.shows.ne_nil (map_eq_nil_iff.mp hl.symm)

theorem Alive.killed (h : Alive s l) {q : Option Cmd} (hq : ∀ q' ∈ q, Writer.Fit s.cfg s.writer q') {n : ℕ}
    (hn : s.writer.dev.trace.length ≤ n) : ∃ u : View, u.Ok ∧ (s.during q).killed n = u.disk := by
  obtain ⟨v0, d0, r, hrel, hst⟩ := h.up
  obtain ⟨v, ht, -, -, -, hhere⟩ := hst.here
  have hv := ht.ok
  have hrel' := ht.reliable hrel
  have key : ∃ v', Tracks s.cfg (fun _ => True) v s.writer.dev v' (s.during q) := by
    cases q with
    | some q =>
      refine wp_state (R := fun w : Writer => ∃ v', Tracks s.cfg (fun _ => True) v
        s.writer.dev v' w.dev) (wp_mono (Writer.step_acts (X := fun e => ∃ p, e = .panic p)
          (hhere _) hrel' (fun _ => trivial) ⟨_, rfl⟩ (by simp) (.inr fun p => ⟨p, rfl⟩)
          (hq q rfl)) ?_ fun _ _ he => he.tracks)
      rintro reply w ⟨-, q', -, l', ⟨r', hst'⟩, -⟩
      obtain ⟨u, hu, -⟩ := hst'.pos
      exact ⟨u, hu⟩
    | none =>
      refine wp_state (R := fun w : Writer => ∃ v', Tracks s.cfg (fun _ => True) v
        s.writer.dev v' w.dev) (wp_mono (Writer.shutdown_spec (X := fun e => ∃ p, e = .panic p)
          (hhere _) (fun _ _ => trivial) (fun _ => trivial) (.inr fun p => ⟨p, rfl⟩) h.backed)
          ?_ fun _ _ he => he.tracks)
      rintro - w ⟨-, l', ⟨u, hu, -⟩, -⟩
      exact ⟨u, hu⟩
  obtain ⟨v', ht'⟩ := key
  obtain ⟨u, ls, -, hp, -, -, -, -, hkill⟩ := ht'.kill ht.disk hn
  exact ⟨u, ok_of_path hp hv, hkill⟩

omit [Crc] in
theorem WalFile.adopt_toHeader {f g : WalFile} (h : f.toHeader = g.toHeader) (off : ℕ)
    (os : List Entry) : (f.adopt off os).toHeader = (g.adopt off os).toHeader := by
  unfold adopt
  split
  · rw [h]
  · exact h

theorem Sound.rereads {u : View} (hs : Sound u.disk) (hu : u.Ok) :
    ∃ l, Forall₂ (Slot.Rereads u.disk) u.slots l ∧ ∀ z ∈ l.getLast?, z.Adoptable u.disk := by
  have hhdr : ∀ a ∈ u.slots, ∃ h, a.hdr = some h := fun a ha => by
    have hread := hu.readFromFile ha
    have hok := hs.headers (a.file.walNo, a.ino) (by rw [hu.dir]; exact mem_map_of_mem ha)
    cases hr : readFromFile a.file.walNo a.ino u.disk with
    | ok f =>
      rw [hr] at hread
      obtain ⟨h, hh, -⟩ := Option.map_eq_some_iff.mp hread.symm
      exact ⟨h, hh⟩
    | error e =>
      rw [hr] at hok
      cases hok
  rcases eq_nil_or_concat' u.slots with hnil | ⟨ss, z, hz⟩
  · exact ⟨[], by rw [hnil]; exact .nil, by simp⟩
  have hzu : z ∈ u.slots := by simp [hz]
  obtain ⟨h, hh⟩ := hhdr z hzu
  obtain ⟨ss', hss'⟩ := exists_forall₂ (R := Slot.Rereads u.disk) (l := ss) fun a ha => by
    obtain ⟨-, -, g, hg, hb, -⟩ := hu.sealed hz ha
    exact ⟨_, g, _, hg, hb, rfl⟩
  have hread := hu.readDir
  rw [hz, View.Ok.filterMap_found (by simp) hh] at hread
  obtain ⟨hb, hb'⟩ := hs.last ⟨h, z.file.walNo, z.file.lenMax, none, none⟩
    (by rw [hread, getLast?_concat]; rfl) z.ino (hu.lookup hzu)
  generalize stored _ u.disk = recs at hb hb'
  refine ⟨ss' ++ [z.reread h recs], ?_, ?_⟩
  · rw [hz]
    exact rel_append hss' (.cons ⟨h, _, hh, hb, rfl⟩ .nil)
  · intro y hy
    rw [getLast?_concat] at hy
    cases hy
    rw [adopt_toHeader (f := ⟨h, z.file.walNo, z.file.lenMax, none, none⟩)
      (g := (z.reread h recs).opened h) rfl] at hb'
    exact hb'

variable [Codec]

theorem reboot_eq_some {d : WalDisk} (h : reboot c d = some s) :
    s.cfg = c ∧ ∃ d', start c (Dev.ofDisk d) = (.ok s.writer, d') := by
  rw [reboot] at h
  obtain ⟨w, hw, rfl⟩ := Option.map_eq_some_iff.mp h
  rcases hs : start c (Dev.ofDisk d) with ⟨res, d'⟩
  rw [boot, hs] at hw
  cases res with
  | ok w' =>
    cases hw
    exact ⟨rfl, d', rfl⟩
  | error e => cases hw

theorem reboot_alive {v : View} (hv : v.Ok) (hidle : v.phase = .idle) (hf : ∀ a ∈ v.slots, a.Found)
    (hmin : minWalSize ≤ c.walSize)
    (ha : v.disk.small.lockFile = true → ∀ a ∈ v.slots.getLast?, a.Adoptable v.disk)
    (hs : reboot c v.disk = some s) : ∃ l, Alive s l ∧ LastMapped l ∧
      (v.slots ≠ [] → v.disk.small.lockFile = false → l.map Slot.content = v.slots.map Slot.content) := by
  obtain ⟨rfl, d', hstart⟩ := reboot_eq_some hs
  obtain ⟨ss, y, hup, hm, hfound, hsame⟩ := (wp_of_ok hstart).mp
    (start_spec hv hidle hf rfl (Dev.reliable_ofDisk _) hmin ha)
  refine ⟨ss ++ [y], ⟨hup, backed_concat.mpr fun b hb _ => (hfound b hb).hdr⟩,
    lastMapped_concat.mpr hm, fun hne hlock => ?_⟩
  obtain ⟨z, hz, rfl⟩ := hsame hne hlock
  rw [hz]
  simp [Slot.content, Slot.withMap]

theorem Alive.restart (h : Alive s l) (hmin : minWalSize ≤ c.walSize)
    (hs : (Turn.restart c).exec s = some s') :
    ∃ l', Alive s' l' ∧ LastMapped l' ∧ l'.map Slot.content = l.map Slot.content := by
  rw [Turn.exec] at hs
  split at hs
  · next w hshut =>
    obtain ⟨hlock, l1, v, hv, rfl, hidle, hdisk, hf, hcont⟩ := (wp_of_ok hshut).mp
      (h.shutdown (X := fun _ => True) (.inr fun _ => trivial))
    rw [← hdisk] at hs hlock
    obtain ⟨l', hal, hm, hl'⟩ := reboot_alive hv hidle hf hmin (by simp [hlock]) hs
    exact ⟨l', hal, hm, (hl' (h.ne_nil hcont) hlock).trans hcont⟩
  · cases hs

theorem Alive.kill (h : Alive s l) {q : Option Cmd} {n : ℕ} (hq : ∀ q' ∈ q, Writer.Fit s.cfg s.writer q')
    (hmin : minWalSize ≤ c.walSize) (hsound : Sound ((s.during q).killed n))
    (hs : (Turn.kill q n c).exec s = some s') : ∃ l', Alive s' l' ∧ LastMapped l' := by
  rw [Turn.exec] at hs
  split_ifs at hs with hn
  obtain ⟨u, hu, hkill⟩ := h.killed hq hn
  rw [hkill] at hsound hs
  obtain ⟨l1, hl1, ha⟩ := hsound.rereads hu
  have hf : ∀ b ∈ l1, b.Found := fun b hb => by
    obtain ⟨i, hi, rfl⟩ := mem_iff_getElem.mp hb
    exact (hl1.get (by rw [hl1.length_eq]; exact hi) hi).found
  obtain ⟨l', hal, hm, -⟩ := reboot_alive (v := ⟨l1, .idle, (0, 0), u.disk⟩) (hu.reread hl1 _) rfl
    hf hmin (fun _ => ha) hs
  exact ⟨l', hal, hm⟩

theorem alive_fresh (hmin : minWalSize ≤ c.walSize) {w : Writer} (h : boot c empty = .ok w) :
    ∃ a, Alive ⟨c, w⟩ [a] ∧ a.file.mmapMut.isSome ∧ a.recs = [] := by
  obtain ⟨w', h', ⟨ino, hst⟩, -, -⟩ := start_fresh c hmin
  cases h.symm.trans h'
  exact ⟨_, ⟨⟨_, _, _, Dev.reliable_ofDisk _, hst.shows, hst.mirror,
    hst.pos.mono fun _ _ => trivial⟩, by simp [Backed]⟩, rfl, rfl⟩

theorem Alive.answered (h : Alive s l) (hm : LastMapped l ∨ ∀ p, X (.panic p))
    (hX : X (.panic .sliceIndex)) (hX' : ∀ e, ¬ X (.err e)) (hq : Writer.Fit s.cfg s.writer q)
    (hs : (Turn.request q).exec s = some s') : ∃ l', Alive s' l' ∧ Served X l q l' := by
  rw [Turn.exec] at hs
  split at hs
  · next reply w hstep =>
    cases hs
    exact ((wp_of_ok hstep).mp (h.request hX hX' hm hq)).2
  · cases hs

theorem alive_of_path {w : Writer} {ts : List Turn} (hmin : minWalSize ≤ c.walSize)
    (h0 : boot c empty = .ok w) (hrun : Lifetimes Store.Fit ⟨c, w⟩ ts s) :
    ∃ l, Alive s l := by
  refine hrun.invariant (I := fun _ s => ∃ l, Alive s l) ?_ ?_
  · obtain ⟨a, ha, -⟩ := alive_fresh hmin h0
    exact ⟨_, ha⟩
  · rintro ts s t s' ⟨l, hl⟩ ⟨hfit, hexec⟩
    cases t with
    | request q =>
      obtain ⟨l', hl', -⟩ := hl.answered (X := fun e => ∃ p, e = .panic p)
        (.inr fun p => ⟨p, rfl⟩) ⟨_, rfl⟩ (by simp) hfit hexec
      exact ⟨l', hl'⟩
    | restart c =>
      obtain ⟨l', hl', -⟩ := hl.restart hfit hexec
      exact ⟨l', hl'⟩
    | kill q n c =>
      obtain ⟨l', hl', -⟩ := hl.kill hfit.1 hfit.2.1 hfit.2.2 hexec
      exact ⟨l', hl'⟩

end

/-! ## Turns on concrete inputs -/

section

variable [Codec]

def filler (n : ℕ) : Bytes := replicate n 7

def guarded (C : Store → Turn → Prop) [∀ s t, Decidable (C s t)] (s : Store) (t : Turn) :
    Option Store := if C s t then t.exec s else none

/-- The first start and the turns `ts` lead to a log store that passes `T`. -/
def Lifetimes.trial (c : Cfg) (C : Store → Turn → Prop) [∀ s t, Decidable (C s t)]
    (ts : List Turn) (T : Store → Bool) : Bool :=
  match boot c empty with
  | .ok w =>
    match ts.foldlM (guarded C) ⟨c, w⟩ with
    | some s => T s
    | none => false
  | .error _ => false

theorem Lifetimes.of_trial (c : Cfg) (C : Store → Turn → Prop) [∀ s t, Decidable (C s t)]
    (ts : List Turn) (T : Store → Bool) (h : trial c C ts T = true) :
    ∃ w s, boot c empty = .ok w ∧ Lifetimes C ⟨c, w⟩ ts s ∧ T s = true := by
  rw [trial] at h
  split at h
  · next w hw =>
    split at h
    · next s hs =>
      refine ⟨w, s, hw, (Path.of_foldlM hs).mono fun s t s' hg => ?_, h⟩
      rw [guarded] at hg
      split_ifs at hg with hC
      exact ⟨hC, hg⟩
    · exact absurd h (by simp)
  · exact absurd h (by simp)

end

/-! ## Truncations -/

section

variable {c : Cfg} {l : List Slot} {s : Store} {k : ℕ}

theorem Alive.stored (h : Alive s l) : s.log = l.flatMap Slot.recs := by
  obtain ⟨v0, d0, r, -, hst⟩ := h.up
  exact hst.stored

theorem Slot.Ok.unused_iff {d : WalDisk} {a : Slot} (h : a.Ok d) :
    a.Unused ↔ a.file.toHeader = Header.unused := by
  refine ⟨And.right, fun hu => ⟨?_, hu⟩⟩
  rcases h.body with ⟨hnil, -⟩ | ⟨-, s, hs⟩
  · exact hnil
  · exact absurd hs.start (by rw [hu]; simp [Header.unused])

/-- A truncation at `k` is stopped: the last of several files is unused, although there is something
to remove and something to keep. -/
def Store.Stuck (s : Store) (k : ℕ) : Prop :=
  1 < s.writer.wal.files.length ∧
    (∃ f ∈ s.writer.wal.files.getLast?, f.toHeader = Header.unused) ∧
    (∃ f ∈ s.writer.wal.files.head?, f.idFrom < k) ∧ ∃ e ∈ s.log, k ≤ e.1

theorem Alive.stuck_iff (h : Alive s l) :
    (Cmd.truncate k).Stuck l ∧ (∃ e ∈ s.log, k ≤ e.1) ↔ s.Stuck k := by
  obtain ⟨v0, d0, r, -, hst⟩ := h.up
  obtain ⟨ss, a, rfl⟩ := hst.shows.split
  have hun := (hst.pos.slot (a := a) (by simp)).unused_iff
  obtain ⟨b, hb⟩ : ∃ b, (ss ++ [a]).head? = some b :=
    Option.isSome_iff_exists.mp (by simp)
  rw [Store.Stuck, Cmd.Stuck, numbered_concat, hst.shows.files, hb, hun]
  simp only [length_map, length_append, length_singleton, getLast?_map,
    getLast?_concat, head?_map, hb, Option.map_some, Option.mem_def, Option.some.injEq,
    forall_eq', exists_eq_left', Classical.not_imp, not_not, length_pos_iff.symm]
  constructor
  · rintro ⟨⟨⟨h1, h2⟩, h3⟩, h4⟩
    exact ⟨by omega, h2, h3, h4⟩
  · rintro ⟨h1, h2, h3, h4⟩
    exact ⟨⟨⟨by omega, h2⟩, h3⟩, h4⟩

variable [Codec]

/-- **A truncation takes effect** in every state of a log store, unless an unused file behind others
stops it. -/
theorem truncate_effective_iff {w0 w : Writer} {ts : List Turn} (hmin : minWalSize ≤ c.walSize)
    (h0 : boot c empty = .ok w0) (hrun : Lifetimes Store.Fit ⟨c, w0⟩ ts s) {reply : Reply}
    (hstep : Writer.step s.cfg (.remove k u64Max none) s.writer = (.ok reply, w)) :
    reply.ack = .ok () ∧
      (w.wal.stored w.dev.disk = truncate k s.log ↔ ¬ s.Stuck k) := by
  obtain ⟨l, hl⟩ := alive_of_path hmin h0 hrun
  obtain ⟨hack, l', hl', hserved⟩ := (wp_of_ok hstep).mp
    (hl.request (q := .truncate k) (X := fun e => ∃ p, e = .panic p) ⟨_, rfl⟩ (by simp)
      (.inr fun p => ⟨p, rfl⟩) trivial)
  obtain ⟨q', hacts, hrecs⟩ := hserved.recs
  refine ⟨hack, ?_⟩
  rw [show w.wal.stored w.dev.disk = l'.flatMap Slot.recs from hl'.stored, hrecs, ← hl.stored,
    ← hl.stuck_iff]
  rcases hacts with ⟨rfl, hs⟩ | ⟨rfl, hs⟩
  · exact iff_of_true rfl fun hc => hs hc.1
  · rw [Cmd.apply, eq_comm, truncate, filter_eq_self]
    simp only [hs, true_and, decide_eq_true_eq, not_exists, not_and, not_le]

omit [Crc] [Codec] in
/-- A truncation behind a graceful restart and a kill takes effect. -/
theorem truncate_effective_run : let := cksum
    let := plainCodec
    ∃ w0 s reply w, boot .least empty = .ok w0 ∧
      Lifetimes Store.Fit ⟨.least, w0⟩
        [.request (.append [(1, [5]), (2, [6])]), .restart .least,
          .kill (some (.append [(3, [7])])) 1000 .least] s ∧
      Writer.step s.cfg (.remove 2 u64Max none) s.writer = (.ok reply, w) ∧ reply.ack = .ok () ∧
      w.wal.stored w.dev.disk = truncate 2 s.log := by
  intro _ _
  obtain ⟨w0, s, h0, hrun, hT⟩ := Lifetimes.of_trial .least Store.Fit
    [.request (.append [(1, [5]), (2, [6])]), .restart .least,
      .kill (some (.append [(3, [7])])) 1000 .least]
    (fun s => decide (s.writer.wal.files.length ≤ 1) &&
      (Writer.step s.cfg (.remove 2 u64Max none) s.writer).1.isOk) (by decide +kernel)
  rw [Bool.and_eq_true, decide_eq_true_eq] at hT
  rcases hstep : Writer.step s.cfg (.remove 2 u64Max none) s.writer with ⟨res, w⟩
  rw [hstep] at hT
  cases res with
  | ok reply =>
    obtain ⟨hack, hiff⟩ := truncate_effective_iff (by decide) h0 hrun hstep
    exact ⟨w0, s, reply, w, h0, hrun, hstep, hack, hiff.mpr fun hc => by have := hc.1; omega⟩
  | error e => exact absurd hT.2 (by simp [Except.isOk, Except.toBool])

omit [Crc] [Codec] in
/-- A kill behind a roll-over leaves an unused file behind, and the next truncation is
acknowledged but ignored. -/
theorem truncate_ignored : let := cksum
    let := plainCodec
    ∃ w0 s reply w, boot .least empty = .ok w0 ∧
      Lifetimes Store.Fit ⟨.least, w0⟩
        [.request (.append [(1, [5]), (2, filler 4100)]),
          .kill (some .sync) 1000 .least] s ∧
      Writer.step s.cfg (.remove 2 u64Max none) s.writer = (.ok reply, w) ∧ reply.ack = .ok () ∧
      s.log.map Prod.fst = [1, 2] ∧ (w.wal.stored w.dev.disk).map Prod.fst = [1, 2] := by
  intro _ _
  obtain ⟨w0, s, h0, hrun, hT⟩ := Lifetimes.of_trial .least Store.Fit
    [.request (.append [(1, [5]), (2, filler 4100)]),
      .kill (some .sync) 1000 .least]
    (fun s => match Writer.step s.cfg (.remove 2 u64Max none) s.writer with
      | (.ok reply, w) => decide (reply.ack.isOk = true ∧
          s.log.map Prod.fst = [1, 2] ∧ (w.wal.stored w.dev.disk).map Prod.fst = [1, 2])
      | (.error _, _) => false) (by decide +kernel)
  split at hT
  · next reply w hstep =>
    obtain ⟨hok, hlog, hlog'⟩ := of_decide_eq_true hT
    have hack : reply.ack = .ok () := by
      cases hr : reply.ack with
      | ok u => rfl
      | error e => rw [hr] at hok; cases hok
    exact ⟨w0, s, reply, w, h0, hrun, hstep, hack, hlog, hlog'⟩
  · exact absurd hT (by simp)

end

/-! ## The active file -/

def Writer.Writable (w : Writer) : Prop :=
  ∃ f, w.wal.active = some (w.wal.files.length - 1) ∧ w.wal.files.getLast? = some f ∧
    f.mmapMut.isSome ∧ f.dataStart.isSome = f.dataEnd.isSome

def Store.Keeps (s : Store) : Turn → Prop
  | .request (.truncate k) => ∀ f ∈ s.writer.wal.files.dropLast.tail, f.idFrom ≠ k
  | _ => True

instance (s : Store) : ∀ t, Decidable (s.Keeps t)
  | .request (.truncate k) =>
    inferInstanceAs (Decidable (∀ f ∈ s.writer.wal.files.dropLast.tail, f.idFrom ≠ k))
  | .request (.append _) | .request (.purge ..) | .request (.vote _) | .request .sync
  | .restart _ | .kill .. => isTrue trivial

section

variable {c : Cfg} {l : List Slot} {s : Store}

theorem Alive.writable (h : Alive s l) (hm : LastMapped l) : s.writer.Writable := by
  obtain ⟨v0, d0, r, -, hst⟩ := h.up
  obtain ⟨ss, a, rfl⟩ := hst.shows.split
  refine ⟨a.file, by rw [hst.shows.active, hst.shows.files, length_map],
    by simp [hst.shows.files], lastMapped_concat.mp hm, ?_⟩
  rcases (hst.pos.slot (a := a) (by simp)).body with ⟨-, hv⟩ | ⟨-, s, hs⟩
  · rw [hv.start, hv.stop]
  · rw [hs.start, hs.stop]
    rfl

theorem Alive.keeps (h : Alive s l) {q : Cmd} (hk : s.Keeps (.request q)) : q.Keeps l := by
  obtain ⟨v0, d0, r, -, hst⟩ := h.up
  cases q with
  | truncate k =>
    intro b hb
    refine hk b.file ?_
    rw [hst.shows.files, ← map_dropLast, ← map_tail]
    exact mem_map_of_mem hb
  | _ => trivial

variable [Codec]

/-- **The active file stays writable** as long as no truncation hits the first id of a sealed file
behind others: a request is stopped only when the numbers of the files run out, and the shutdown never is. -/
theorem active_writable {w0 : Writer} {ts : List Turn} (hmin : minWalSize ≤ c.walSize)
    (h0 : boot c empty = .ok w0)
    (hrun : Lifetimes (fun s t => s.Fit t ∧ s.Keeps t) ⟨c, w0⟩ ts s) : s.writer.Writable ∧
      (∀ q, Writer.Fit s.cfg s.writer q → ∀ e w, Writer.step s.cfg q.action s.writer = (.error e, w) →
        e = .panic .sliceIndex) ∧
      ∃ w, Writer.shutdown s.writer = (.ok (), w) := by
  obtain ⟨l, hl, hm⟩ : ∃ l, Alive s l ∧ LastMapped l := by
    refine hrun.invariant (I := fun _ s => ∃ l, Alive s l ∧ LastMapped l) ?_ ?_
    · obtain ⟨a, ha, hm, -⟩ := alive_fresh hmin h0
      exact ⟨_, ha, by simpa [LastMapped] using hm⟩
    · rintro ts s t s' ⟨l, hl, hm⟩ ⟨⟨hfit, hkeeps⟩, hexec⟩
      cases t with
      | request q =>
        obtain ⟨l', hl', hserved⟩ := hl.answered (X := (· = .panic .sliceIndex)) (.inl hm) rfl
          (by simp) hfit hexec
        refine ⟨l', hl', (hserved.mapped (hl.keeps hkeeps)).resolve_right fun hc => ?_⟩
        cases hc .unwrapFile
      | restart c =>
        obtain ⟨l', hl', hm', -⟩ := hl.restart hfit hexec
        exact ⟨l', hl', hm'⟩
      | kill q n c => exact hl.kill hfit.1 hfit.2.1 hfit.2.2 hexec
  refine ⟨hl.writable hm, fun q hq e w hstep => ?_, ?_⟩
  · exact (wp_of_error hstep).mp (hl.request (X := (· = .panic .sliceIndex)) rfl (by simp)
      (.inl hm) hq)
  · have hspec := hl.shutdown (X := fun _ => False) (.inl hm)
    rcases hshut : Writer.shutdown s.writer with ⟨res, w⟩
    cases res with
    | ok u => exact ⟨w, rfl⟩
    | error e => exact ((wp_of_error hshut).mp hspec).elim

omit [Crc] [Codec] in
/-- Truncations inside of a file, and a kill. -/
theorem active_writable_run : let := cksum
    let := plainCodec
    ∃ w0 s w, boot .least empty = .ok w0 ∧
      Lifetimes (fun s t => s.Fit t ∧ s.Keeps t) ⟨.least, w0⟩
        [.request (.append [(1, filler 4100)]), .request (.append [(2, [5]), (3, [6])]),
          .request (.truncate 3), .request (.purge 2 none),
          .kill (some (.append [(3, [7])])) 1000 .least] s ∧
      s.writer.Writable ∧ Writer.shutdown s.writer = (.ok (), w) := by
  intro _ _
  obtain ⟨w0, s, h0, hrun, -⟩ := Lifetimes.of_trial .least
    (fun s t => s.Fit t ∧ s.Keeps t)
    [.request (.append [(1, filler 4100)]), .request (.append [(2, [5]), (3, [6])]),
      .request (.truncate 3), .request (.purge 2 none),
      .kill (some (.append [(3, [7])])) 1000 .least] (fun _ => true)
    (by decide +kernel)
  obtain ⟨hw, -, w, hshut⟩ := active_writable (by decide) h0 hrun
  exact ⟨w0, s, w, h0, hrun, hw, hshut⟩

/-- Whether a request has panicked for want of a mapping. -/
def unmapped : Except Stop Reply × Writer → Bool
  | (.error (.panic .unwrapMmapMut), _) => true
  | _ => false

omit [Crc] [Codec] in
/-- A truncation at the first id of a sealed file leaves it active without its mapping, and the next
append panics. -/
theorem truncate_unmaps : let := cksum
    let := plainCodec
    ∃ w0 s w, boot .least empty = .ok w0 ∧
      Lifetimes Store.Fit ⟨.least, w0⟩
        [.request (.append [(1, filler 4100)]), .request (.append [(2, filler 4100)]),
          .request (.truncate 2)] s ∧
      ¬ s.writer.Writable ∧ Writer.Fit s.cfg s.writer (.append [(2, [5])]) ∧
      Writer.step s.cfg (.append [(2, [5])]) s.writer = (.error (.panic .unwrapMmapMut), w) := by
  intro _ _
  obtain ⟨w0, s, h0, hrun, hT⟩ := Lifetimes.of_trial .least Store.Fit
    [.request (.append [(1, filler 4100)]), .request (.append [(2, filler 4100)]),
      .request (.truncate 2)]
    (fun s => (s.writer.wal.files.getLast?.all fun f => f.mmapMut.isNone) &&
      (decide (Writer.Fit s.cfg s.writer (.append [(2, [5])])) &&
        unmapped (Writer.step s.cfg (.append [(2, [5])]) s.writer))) (by decide +kernel)
  rw [Bool.and_eq_true, Bool.and_eq_true, decide_eq_true_eq] at hT
  obtain ⟨hlast, hfit, hstep⟩ := hT
  unfold unmapped at hstep
  split at hstep
  · next w hw =>
    refine ⟨w0, s, w, h0, hrun, ?_, hfit, hw⟩
    rintro ⟨f, -, hf, hm, -⟩
    rw [hf, Option.all_some] at hlast
    rw [Option.isNone_iff_eq_none.mp hlast] at hm
    cases hm
  · cases hstep

end

/-! ## Graceful restarts -/

def Turn.Graceful : Turn → Prop
  | .kill .. => False
  | _ => True

instance : ∀ t : Turn, Decidable t.Graceful
  | .kill .. => isFalse id
  | .request _ | .restart _ => isTrue trivial

def Turn.cmd : Turn → Option Cmd
  | .request q => some q
  | _ => none

section

variable {c : Cfg} {v : View} {l : List Slot} {s : Store}

theorem View.Ok.stored (hv : v.Ok) {i : Option ℕ} :
    (WalFileSet.mk i (v.slots.map Slot.file)).stored v.disk = v.log := by
  rw [WalFileSet.stored, flatMap_map]
  exact flatMap_congr fun a ha =>
    Body.stored (hv.lookup ha) (hv.slots a ha).lt_max (hv.slots a ha).body

theorem isChain_ids {d : WalDisk} (hc : l.IsChain fun a b => a.Sealed d ∧ a.Next b)
    (hn : Numbered l) : l.IsChain fun a b => a.file.idUntil + 1 = b.file.idFrom := by
  induction l with
  | nil => exact .nil
  | cons a l ih =>
    cases l with
    | nil => exact .singleton _
    | cons b ts =>
      obtain ⟨⟨-, hnext⟩, hc'⟩ := isChain_cons_cons.mp hc
      have hb : ¬ b.Unused := by
        cases ts with
        | nil => exact hn b (by simp)
        | cons y ts =>
          obtain ⟨⟨hseal, -⟩, -⟩ := isChain_cons_cons.mp hc'
          exact fun hu => hseal.1 hu.1
      refine isChain_cons_cons.mpr ⟨(hnext.id.resolve_right hb).symm, ih hc' ?_⟩
      cases ts with
      | nil => simp [Numbered]
      | cons y ts => exact fun x hx => hn x (by simpa using hx)

variable [Codec]

theorem log_of_graceful {w0 : Writer} {ts : List Turn} (hmin : minWalSize ≤ c.walSize)
    (h0 : boot c empty = .ok w0) (hrun : Lifetimes (fun s t => s.Fit t ∧ t.Graceful) ⟨c, w0⟩ ts s) :
    ∃ l, Alive s l ∧ Numbered l ∧ l.flatMap Slot.recs = logOf (ts.filterMap Turn.cmd) := by
  refine hrun.invariant (I := fun ts s => ∃ l, Alive s l ∧ Numbered l ∧
    l.flatMap Slot.recs = logOf (ts.filterMap Turn.cmd)) ?_ ?_
  · obtain ⟨a, ha, -, hrecs⟩ := alive_fresh hmin h0
    exact ⟨_, ha, by simp [Numbered], by simp [hrecs, logOf]⟩
  · rintro ts s t s' ⟨l, hl, hn, hlog⟩ ⟨⟨hfit, hgrace⟩, hexec⟩
    cases t with
    | request q =>
      obtain ⟨l', hl', hserved⟩ := hl.answered (X := fun e => ∃ p, e = .panic p)
        (.inr fun p => ⟨p, rfl⟩) ⟨_, rfl⟩ (by simp) hfit hexec
      obtain ⟨q', ⟨rfl, -⟩ | ⟨-, hstuck⟩, hrecs⟩ := hserved.recs
      · refine ⟨l', hl', hserved.numbered hn, ?_⟩
        rw [hrecs, hlog, filterMap_append, logOf, logOf, foldl_append]
        rfl
      · cases q with
        | truncate k => exact absurd hn hstuck.1
        | _ => exact hstuck.elim
    | restart c =>
      obtain ⟨l', hl', -, hcont⟩ := hl.restart hfit hexec
      refine ⟨l', hl', numbered_of_content hcont hn, ?_⟩
      rw [recs_of_content hcont, hlog, filterMap_append,
        show [Turn.restart c].filterMap Turn.cmd = [] from rfl, append_nil]
    | kill q n c => exact hgrace.elim

/-- **A graceful restart preserves the log.** The files that a completed shutdown leaves behind are
read and accepted, and hold the log of all requests so far. -/
theorem restart_preserves_log {w0 w : Writer} {ts : List Turn} (hmin : minWalSize ≤ c.walSize)
    (h0 : boot c empty = .ok w0) (hrun : Lifetimes (fun s t => s.Fit t ∧ t.Graceful) ⟨c, w0⟩ ts s)
    (hshut : Writer.shutdown s.writer = (.ok (), w)) (c' : Cfg) :
    ∃ set, WalFileSet.read c'.walSize (Dev.ofDisk w.dev.disk) = (.ok set, Dev.ofDisk w.dev.disk) ∧
      set.exec (WalFileSet.checkIntegrity c'.autoHeal false) (Dev.ofDisk w.dev.disk) =
        (.ok set, Dev.ofDisk w.dev.disk) ∧
      set.stored w.dev.disk = s.log ∧ s.log = logOf (ts.filterMap Turn.cmd) ∧
      (set.files.IsChain fun f g => f.idUntil + 1 = g.idFrom) ∧
      ∀ f ∈ set.files.dropLast, f.stored w.dev.disk ≠ [] := by
  obtain ⟨l, hl, hn, hlog⟩ := log_of_graceful hmin h0 hrun
  obtain ⟨-, l', v, hv, rfl, -, hdisk, hf, hcont⟩ := (wp_of_ok hshut).mp
    (hl.shutdown (X := fun _ => True) (.inr fun _ => trivial))
  obtain ⟨ss, z, hz⟩ := (eq_nil_or_concat' v.slots).resolve_left (hl.ne_nil hcont)
  have hfound := hv.filterMap_found_eq hf
  have hread : WalFileSet.readDir (Dev.ofDisk w.dev.disk : WalDev).disk =
      ss.map Slot.file ++ [z.file] := by
    rw [Dev.ofDisk_disk, ← hdisk, hv.readDir, hfound, hz, map_append, map_singleton]
  have hfiles : ss.map Slot.file ++ [z.file] = v.slots.map Slot.file := by simp [hz]
  have hcheck := hv.checkFiles
  rw [hfound, ← hfiles] at hcheck
  refine ⟨⟨some (ss.map Slot.file).length, ss.map Slot.file ++ [z.file]⟩, ?_, ?_, ?_, ?_, ?_, ?_⟩
  · exact eq_ok_of_wp ((WalFileSet.wp_read hread).mpr ⟨rfl, rfl⟩)
  · refine eq_ok_of_wp ?_
    rw [WalFileSet.wp_exec, WalFileSet.wp_checkIntegrity_false hcheck]
    exact ⟨rfl, rfl⟩
  · rw [hfiles, ← hdisk, hv.stored, hl.stored]
    exact recs_of_content hcont
  · rw [hl.stored, hlog]
  · rw [hfiles, isChain_map]
    exact isChain_ids hv.chain (numbered_of_content hcont hn)
  · intro f hfm
    rw [dropLast_concat] at hfm
    obtain ⟨a, ha, rfl⟩ := mem_map.mp hfm
    have hav : a ∈ v.slots := by simp [hz, ha]
    rw [← hdisk, Body.stored (hv.lookup hav) (hv.slots a hav).lt_max (hv.slots a hav).body]
    exact (hv.sealed hz ha).1

omit [Crc] [Codec] in
/-- Three lifetimes with different sizes. -/
theorem restart_preserves_log_run : let := cksum
    let := plainCodec
    ∃ w0 s w set d, boot .least empty = .ok w0 ∧
      Lifetimes (fun s t => s.Fit t ∧ t.Graceful) ⟨.least, w0⟩
        [.request (.append [(1, filler 4100)]), .restart ⟨10000, by decide, .immediate, true, true⟩,
          .request (.append [(2, [5]), (3, [6])]), .request (.truncate 3),
          .restart .least, .request (.purge 2 none)] s ∧
      Writer.shutdown s.writer = (.ok (), w) ∧
      WalFileSet.read minWalSize (Dev.ofDisk w.dev.disk) = (.ok set, d) ∧
      set.stored w.dev.disk = [(2, [5])] := by
  intro _ _
  obtain ⟨w0, s, h0, hrun, hT⟩ := Lifetimes.of_trial .least
    (fun s t => s.Fit t ∧ t.Graceful)
    [.request (.append [(1, filler 4100)]), .restart ⟨10000, by decide, .immediate, true, true⟩,
      .request (.append [(2, [5]), (3, [6])]), .request (.truncate 3),
      .restart .least, .request (.purge 2 none)]
    (fun s => (Writer.shutdown s.writer).1.isOk) (by decide +kernel)
  rcases hshut : Writer.shutdown s.writer with ⟨res, w⟩
  rw [hshut] at hT
  cases res with
  | ok u =>
    obtain ⟨set, hread, -, hstored, hlog, -⟩ :=
      restart_preserves_log (by decide) h0 hrun hshut .least
    refine ⟨w0, s, w, set, _, h0, hrun, hshut, hread, ?_⟩
    rw [hstored, hlog]
    rfl
  | error e => exact absurd hT (by simp [Except.isOk, Except.toBool])

/-- Whether the files of a writer that shuts down are refused by the next start. -/
def refusedAfter (s : Store) : Bool :=
  match Writer.shutdown s.writer with
  | (.ok _, w) => match WalFileSet.read minWalSize (Dev.ofDisk w.dev.disk) with
    | (.ok set, d) => match set.exec (WalFileSet.checkIntegrity true false) d with
      | (.error (.err (.integrity _)), _) => true
      | _ => false
    | (.error _, _) => false
  | (.error _, _) => false

omit [Crc] [Codec] in
/-- An entry that is short enough for the limit but too long for an empty file lets an empty file be
sealed, and the next start refuses the files. -/
theorem oversized_breaks_chain : let := cksum
    let := plainCodec
    ∃ w0 s w set d d' msg, boot .least empty = .ok w0 ∧
      Lifetimes (fun _ t => t.Graceful) ⟨.least, w0⟩
        [.request (.append [(1, filler 4100)]), .request (.append [(2, filler 8143)])] s ∧
      8143 ≤ Writer.dataLenLimit .least ∧
      Writer.shutdown s.writer = (.ok (), w) ∧
      WalFileSet.read minWalSize (Dev.ofDisk w.dev.disk) = (.ok set, d) ∧
      set.exec (WalFileSet.checkIntegrity true false) d = (.error (.err (.integrity msg)), d') := by
  intro _ _
  obtain ⟨w0, s, h0, hrun, hT⟩ := Lifetimes.of_trial .least (fun _ t => t.Graceful)
    [.request (.append [(1, filler 4100)]), .request (.append [(2, filler 8143)])]
    (fun s => refusedAfter s) (by decide +kernel)
  unfold refusedAfter at hT
  split at hT
  · next u w hshut =>
    split at hT
    · next set d hread =>
      split at hT
      · next msg d' hcheck =>
        exact ⟨w0, s, w, set, d, d', msg, h0, hrun, by decide, hshut, hread, hcheck⟩
      · cases hT
    · cases hT
  · cases hT

end

end Hiqlite.Wal
