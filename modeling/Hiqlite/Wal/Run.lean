import Hiqlite.Wal.WriterSpec

/-!
# W13 — runs of the writer

The log store sends one request after the other to the writer, which lives from a start to a
shutdown or a kill.

* **`step_spec`**: one request, from the files `l` to the files `l'`; **`start_fresh`**: the first start.
-/

namespace Hiqlite.Wal

open List Exec Slot WalDisk

/-! ## Requests -/

/-- What `log_store_impl.rs` and the interval of `LogSync` send to the writer. -/
inductive Cmd where
  | append (entries : List Entry)
  | truncate (id : ℕ)
  | purge (id : ℕ) (lastLog : Option Bytes)
  | vote (value : Bytes)
  | sync

namespace Cmd

def action : Cmd → Action
  | append es => .append es
  | truncate k => .remove k u64Max none
  | purge k b => .remove 0 k b
  | vote b => .vote b
  | sync => .sync

def apply : Cmd → List Entry → List Entry
  | append es, L => L ++ es
  | truncate k, L => Hiqlite.truncate k L
  | purge k _, L => Hiqlite.purge k L
  | vote _, L => L
  | sync, L => L

def applyMeta : Cmd → Metadata → Metadata
  | purge _ b, m => { m with lastPurgedLogId := b.or m.lastPurgedLogId }
  | vote b, m => { m with vote := some b }
  | _, m => m

def Labels : Cmd → Label → Prop
  | append _, x => x.Grow
  | truncate _, x => (x.Shrink ∧ x ≠ .purge) ∨ x.Beside
  | purge _ _, x => x.Shrink ∨ x.Beside
  | vote _, x => x.Plain ∨ ∃ m, x = .event (.small m)
  | sync, x => x.Plain

/-- The request can be carried out at the files `l`. -/
def Ok (c : Cfg) (l : List Slot) : Cmd → Prop
  | append es => BatchOk c l es
  | truncate _ => Numbered l
  | _ => True

/-- The request does not truncate at the first id of a sealed file behind others. -/
def Keeps (l : List Slot) : Cmd → Prop
  | truncate k => ∀ b ∈ l.dropLast.tail, b.file.idFrom ≠ k
  | _ => True

end Cmd

variable [Crc]

section

variable {c : Cfg} {P : Label → Prop} {v0 : View} {d0 d : WalDev} {r : ℕ × ℕ} {X : Stop → Prop}
  {ss l : List Slot} {a : Slot} {w : Writer}

namespace Writer

structure After (c : Cfg) (P : Label → Prop) (v0 : View) (d0 : WalDev) (X : Stop → Prop)
    (w : Writer) (l : List Slot) (q : Cmd) (l' : List Slot) (w' : Writer) : Prop where
  stands : ∃ r, w'.Stands c P v0 d0 l' r
  mapped : q.Keeps l → LastMapped l' ∨ ∀ p, X (.panic p)
  numbered : Numbered l → Numbered l'
  backed : Backed l → Backed l'
  recs : l'.flatMap recs = q.apply (l.flatMap recs)
  metadata : w'.metadata = q.applyMeta w.metadata
  synced : w.Synced → w'.Synced

omit [Crc] in
theorem concat_alike {b : Slot} (ss : List Slot) (hfile : b.file = a.file) (hrecs : b.recs = a.recs) :
    (Numbered (ss ++ [a]) ↔ Numbered (ss ++ [b])) ∧ (Backed (ss ++ [a]) ↔ Backed (ss ++ [b])) ∧
      (LastMapped (ss ++ [b]) ↔ a.file.mmapMut.isSome) ∧
      (ss ++ [a]).flatMap recs = (ss ++ [b]).flatMap recs := by
  refine ⟨?_, by rw [backed_concat, backed_concat], by rw [lastMapped_concat, hfile],
    by simp [hrecs]⟩
  rw [numbered_concat, numbered_concat, Unused, Unused, hrecs, hfile]

theorem flushBlocking_stands (h : w.Stands c P v0 d0 l r)
    (hP : Label.Plain ≤ P) (hm : LastMapped l ∨ ∀ p, X (.panic p)) : wp flushBlocking
      (fun _ w' => ∃ l', After c P v0 d0 X w l .sync l' w')
      (fun e w' => Fails c P v0 d0 X e w'.dev) w := by
  obtain ⟨ss, a, rfl⟩ := h.shows.split
  obtain ⟨v, ht, -, -, -, hhere⟩ := h.here
  rw [lastMapped_concat] at hm
  refine wp_mono (flushBlocking_spec (hhere Label.Plain).pos le_rfl h.shows hm) ?_
    fun _ _ he => he.1.rebase ht hP
  rintro - w' ⟨d, b, rfl, h1, hb⟩
  have hfile : b.file = a.file := by rcases hb with rfl | ⟨rfl, -⟩ <;> rfl
  have hrecs : b.recs = a.recs := by rcases hb with rfl | ⟨rfl, -⟩ <;> rfl
  obtain ⟨hn, hbk, -⟩ := concat_alike ss hfile hrecs
  refine ⟨ss ++ [b], ⟨r, h.move rfl rfl (by simp [hfile]) (.trans ht (h1.mono hP))⟩,
    fun _ => by simpa [hfile] using hm, hn.mp, hbk.mp, by simp [hrecs, Cmd.apply], rfl,
    fun hs => ?_⟩
  obtain ⟨u, hu, -⟩ := h1
  exact (congrArg Small.metaFile (hu.small (fun m hc => hc) ht.disk)).trans hs

theorem Stands.reliable (h : w.Stands c P v0 d0 l r) (hrel : d0.Reliable) : w.dev.Reliable := by
  obtain ⟨v, ht, -⟩ := h.pos
  exact ht.reliable hrel

theorem remove_ok {R : Label → Prop} {f u : ℕ} {lastLog : Option Bytes} {L : List Entry}
    {K : List Slot → Prop} (h : w.Stands c P v0 d0 (ss ++ [a]) r) (hrel : d0.Reliable)
    (hP : R ≤ P) (hP1 : Label.Plain ≤ R)
    (hP2 : Label.Beside ≤ P) (hP3 : ∀ m, ¬ R (.event (.small m)))
    (hX : ∀ e, ¬ X (.err e)) (hm : a.file.mmapMut.isSome ∨ ∀ p, X (.panic p))
    (hshift : Shifts c R X ss a f u L K) : wp (remove c f u lastLog)
      (fun reply w' => reply.ack = .ok () ∧
        ∃ l', Removed c P v0 d0 w lastLog l' (f, u) L w' ∧ K l')
      (fun e w' => Fails c P v0 d0 X e w'.dev) w := by
  refine wp_imp (remove_spec h hP hP1 hP2 hP3 hX hm hshift) ?_
  rintro reply w' (⟨rfl, hw⟩ | ⟨e, -, hrev⟩)
  · exact ⟨rfl, hw⟩
  · exact absurd (hrev.fails.of_reliable hrel) (hX e)

section

variable (h : w.Stands c P v0 d0 l r)
include h

theorem truncate_after {k : ℕ} (hrel : d0.Reliable) (hP : (Cmd.truncate k).Labels ≤ P)
    (hX' : ∀ e, ¬ X (.err e)) (hm : LastMapped l ∨ ∀ p, X (.panic p))
    (hq : Numbered l ∨ ∀ a ∈ l.head?, k ≤ a.file.idFrom) :
    wp (step c (Cmd.truncate k).action)
      (fun reply w' => reply.ack = .ok () ∧ ∃ l', After c P v0 d0 X w l (.truncate k) l' w')
      (fun e w' => Fails c P v0 d0 X e w'.dev) w := by
  obtain ⟨ss, a, rfl⟩ := h.shows.split
  rw [lastMapped_concat] at hm
  refine wp_imp (remove_ok (R := fun x => x.Shrink ∧ x ≠ .purge)
    (K := fun l' => (Numbered (ss ++ [a]) → Numbered l') ∧ (Backed (ss ++ [a]) → Backed l') ∧
      (a.file.mmapMut.isSome → (∀ b ∈ ss.tail, b.file.idFrom ≠ k) → LastMapped l'))
    (L := Hiqlite.truncate k ((ss ++ [a]).flatMap recs)) h hrel
    (fun x hx => hP x (.inl hx)) (fun x hx => ⟨hx.shrink, by rintro rfl; exact hx⟩)
    (fun x hx => hP x (.inr hx)) (fun m hc => hc.1) hX' hm ?_) ?_
  · intro v b s d hfile hrecs h1 hs
    obtain ⟨hn, hbk, hmap, hL⟩ := concat_alike ss hfile hrecs
    have hhead : ∀ x ∈ (ss ++ [b]).head?, ∃ y ∈ (ss ++ [a]).head?, x.file = y.file := by
      intro x hx
      cases ss with
      | nil =>
        cases hx
        exact ⟨a, by simp, hfile⟩
      | cons y ss =>
        cases hx
        exact ⟨x, by simp, rfl⟩
    have hdrop : ss = (ss ++ [b]).dropLast := by simp
    rw [hL, ← hmap, hbk, hn]
    rw [hn] at hq
    conv in ∀ b ∈ ss.tail, b.file.idFrom ≠ k => rw [hdrop]
    obtain ⟨x, ts, hxt⟩ := exists_cons_of_ne_nil (show ss ++ [b] ≠ [] by simp)
    rw [hxt] at h1 hs hq hhead ⊢
    refine WalFileSet.shiftDeleteLogs_truncate h1 (fun x hx hne => ⟨hx, hne⟩) hs
      (hq.imp_right fun hle => ?_)
    obtain ⟨y, hy, hxy⟩ := hhead x rfl
    rw [hxy]
    exact hle y hy
  · rintro reply w' ⟨hack, l', hrem, hn, hbk, hmap⟩
    refine ⟨hack, l', ⟨_, hrem.stands⟩, fun hk => ?_, hn, hbk, hrem.recs, hrem.metadata,
      hrem.synced⟩
    refine hm.imp_left fun hm => hmap hm fun b hb => hk b (by simpa using hb)

theorem truncate_stuck {k : ℕ} (hrel : d0.Reliable) (hP : (Cmd.truncate k).Labels ≤ P)
    (hX' : ∀ e, ¬ X (.err e)) (hm : LastMapped l ∨ ∀ p, X (.panic p)) (hn : ¬ Numbered l)
    (hk : ∀ a ∈ l.head?, a.file.idFrom < k) : wp (step c (Cmd.truncate k).action)
      (fun reply w' => reply.ack = .ok () ∧ ∃ l', After c P v0 d0 X w l .sync l' w')
      (fun e w' => Fails c P v0 d0 X e w'.dev) w := by
  obtain ⟨ss, a, rfl⟩ := h.shows.split
  rw [lastMapped_concat] at hm
  refine wp_imp (remove_ok (R := fun x => x.Shrink ∧ x ≠ .purge)
    (K := fun l' => ∃ b, l' = ss ++ [b] ∧ b.file = a.file ∧ b.recs = a.recs)
    (L := (ss ++ [a]).flatMap recs) h hrel
    (fun x hx => hP x (.inl hx)) (fun x hx => ⟨hx.shrink, by rintro rfl; exact hx⟩)
    (fun x hx => hP x (.inr hx)) (fun m hc => hc.1) hX' hm ?_) ?_
  · intro v b s d hfile hrecs h1 hs
    have hn' := mt (concat_alike ss hfile hrecs).1.mpr hn
    obtain ⟨y, ss, rfl⟩ := exists_cons_of_ne_nil (show ss ≠ [] by
      rintro rfl
      exact hn (by simp [Numbered]))
    rw [cons_append] at hs hn'
    rw [WalFileSet.shiftDeleteLogs_stuck hs hn' (hk y rfl)]
    refine ⟨y :: ss ++ [b], ⟨by simpa using hs, by simp, by simp [hrecs],
      ⟨_, .inl (infix_refl _), forall₂_same _⟩⟩, by simp, h1, b, rfl, hfile, hrecs⟩
  · rintro reply w' ⟨hack, l', hrem, b, rfl, hfile, hrecs⟩
    refine ⟨hack, _, ⟨_, hrem.stands⟩, fun _ => by rwa [lastMapped_concat, hfile],
      fun hc => absurd hc hn, fun hbk => backed_concat.mpr (backed_concat.mp hbk), hrem.recs,
      hrem.metadata, hrem.synced⟩

theorem step_spec {q : Cmd} (hrel : d0.Reliable) (hP : q.Labels ≤ P)
    (hX : X (.panic .sliceIndex)) (hX' : ∀ e, ¬ X (.err e))
    (hm : LastMapped l ∨ ∀ p, X (.panic p)) (hq : q.Ok c l) : wp (step c q.action)
      (fun reply w' => reply.ack = .ok () ∧ ∃ l', After c P v0 d0 X w l q l' w')
      (fun e w' => Fails c P v0 d0 X e w'.dev) w := by
  cases q with
  | append es =>
    -- an append does not touch the metadata file
    obtain ⟨v, ht, -, -, -, hhere⟩ := h.here
    refine wp_mono (append_spec (hhere Label.Grow) (ht.reliable hrel)
      le_rfl hX hX' hm hq) ?_ fun _ _ he => he.rebase ht hP
    rintro reply w' ⟨rfl, l', hst, hm', hn', hbk', hrecs, hmeta⟩
    refine ⟨rfl, l', ⟨_, hst.rebase ht hP⟩, fun _ => hm', hn', hbk', hrecs, hmeta, fun hs => ?_⟩
    obtain ⟨u, hu, -⟩ := hst.pos
    rw [Synced, hu.small (fun m hc => hc) ht.disk, hmeta]
    exact hs
  | truncate k => exact truncate_after h hrel hP hX' hm (.inl hq)
  | purge k b =>
    obtain ⟨ss, a, rfl⟩ := h.shows.split
    rw [lastMapped_concat] at hm
    refine wp_imp (remove_ok (R := Label.Shrink)
      (K := fun l' => (a.file.mmapMut.isSome → LastMapped l') ∧
        (Numbered (ss ++ [a]) → Numbered l') ∧ (Backed (ss ++ [a]) → Backed l'))
      (L := Hiqlite.purge k ((ss ++ [a]).flatMap recs)) h hrel
      (fun x hx => hP x (.inl hx)) (fun x hx => hx.shrink) (fun x hx => hP x (.inr hx))
      (fun m hc => hc) hX' hm ?_) ?_
    · intro v b s d hfile hrecs h1 hs
      obtain ⟨hn, hbk, hmap, hL⟩ := concat_alike ss hfile hrecs
      rw [hL, ← hmap, hn, hbk]
      exact WalFileSet.shiftDeleteLogs_purge h1 le_rfl hs (by simp)
    · rintro reply w' ⟨hack, l', hrem, hmap, hn, hbk⟩
      exact ⟨hack, l', ⟨_, hrem.stands⟩, fun _ => hm.imp_left hmap, hn, hbk, hrem.recs,
        hrem.metadata, hrem.synced⟩
  | vote b =>
    simp only [Cmd.action, step, vote]
    rw [wp_bind]
    refine wp_imp (flushBlocking_stands h (fun x hx => hP x (.inl hx)) hm) ?_
    rintro - w1 ⟨l', ⟨r', hst⟩, hm1, hn1, hbk1, hrecs1, hmeta1, hsync1⟩
    rw [wp_bind, wp_modify, wp_bind]
    have hfault : w1.dev.fault w1.dev.calls = false := by
      have := hst.reliable hrel
      rw [Dev.Reliable] at this
      rw [this]
    rw [wp_reported, wp_metadataWrite, if_neg (by simp [hfault])]
    refine ⟨rfl, l', ⟨r', hst.move rfl rfl rfl (hst.pos.tick.small (hP _ (.inr ⟨_, rfl⟩)))⟩,
      hm1, hn1, hbk1, hrecs1, ?_, fun _ => rfl⟩
    simp only [hmeta1]
    rfl
  | sync =>
    simp only [Cmd.action, step, sync]
    rw [wp_bind]
    refine wp_imp (flushBlocking_stands h hP hm) ?_
    rintro - w' hw
    exact ⟨rfl, hw⟩

/-! ## The files of the writer -/

theorem Stands.stored : w.wal.stored w.dev.disk = l.flatMap recs := by
  rw [WalFileSet.stored, h.shows.files, flatMap_map]
  refine flatMap_congr fun a ha => ?_
  have hok := h.pos.slot ha
  exact Body.stored (h.pos.lookup ha) hok.lt_max hok.body

theorem Stands.body {f : WalFile} (hf : f ∈ w.wal.files) :
    ∃ ino, w.dev.disk.lookup f.walNo = some ino ∧
      Body (w.dev.disk.inode ino).bytes f.lenMax f.toHeader (f.stored w.dev.disk) := by
  rw [h.shows.files] at hf
  obtain ⟨a, ha, rfl⟩ := mem_map.mp hf
  have hok := h.pos.slot ha
  have hlook := h.pos.lookup ha
  refine ⟨a.ino, hlook, ?_⟩
  rw [Body.stored hlook hok.lt_max hok.body]
  exact hok.body

end

/-! ## Runs -/

/-- A request that meets the condition `C` and was answered. -/
def Step (c : Cfg) (C : Writer → Cmd → Prop) (w : Writer) (q : Cmd × Reply) (w' : Writer) : Prop :=
  C w q.1 ∧ step c q.1.action w = (.ok q.2, w')

abbrev Run (c : Cfg) (C : Writer → Cmd → Prop) : Writer → List (Cmd × Reply) → Writer → Prop :=
  Path (Step c C)

/-- The entries of a batch fit into a new file and continue the stored log, and an active file
without data has space for the first one. -/
def Fit (c : Cfg) (w : Writer) : Cmd → Prop
  | .append es => (∀ e ∈ es, EntryOk e ∧ e.2.length + 48 ≤ c.walSize) ∧
      (∀ e ∈ es.head?, ∀ f ∈ w.wal.files.getLast?, f.dataEnd = none →
        e.2.length + 49 < f.lenMax) ∧ Consec (w.wal.stored w.dev.disk ++ es)
  | _ => True

instance (c : Cfg) (w : Writer) : ∀ q, Decidable (Fit c w q)
  | .append es => inferInstanceAs (Decidable
      ((∀ e ∈ es, EntryOk e ∧ e.2.length + 48 ≤ c.walSize) ∧
        (∀ e ∈ es.head?, ∀ f ∈ w.wal.files.getLast?, f.dataEnd = none →
          e.2.length + 49 < f.lenMax) ∧ Consec (w.wal.stored w.dev.disk ++ es)))
  | .truncate _ | .purge .. | .vote _ | .sync => isTrue trivial

variable {C : Writer → Cmd → Prop}

variable {w' : Writer}

theorem Step.after {q : Cmd × Reply} (hs : Step c C w q w') (h : w.Stands c P v0 d0 l r)
    (hrel : d0.Reliable) (hP : q.1.Labels ≤ P)
    (hX : X (.panic .sliceIndex)) (hX' : ∀ e, ¬ X (.err e))
    (hm : LastMapped l ∨ ∀ p, X (.panic p)) (hq : q.1.Ok c l) :
    q.2.ack = .ok () ∧ ∃ l', After c P v0 d0 X w l q.1 l' w' :=
  (wp_of_ok hs.2).mp (step_spec h hrel hP hX hX' hm hq)

theorem Stands.batchOk {es : List Entry} (h : w.Stands c P v0 d0 l r)
    (hq : Fit c w (.append es)) : BatchOk c l es := by
  obtain ⟨h1, h2, h3⟩ := hq
  rw [h.stored] at h3
  refine ⟨fun e he => (h1 e he).1, fun e he => (h1 e he).2, fun e he a ha hnil => ?_, h3⟩
  refine h2 e he a.file ?_ ?_
  · rw [h.shows.files, getLast?_map, ha]
    rfl
  · have hb := (h.pos.slot (mem_of_getLast? ha)).body
    rw [hnil, body_nil] at hb
    exact hb.stop

theorem Stands.ok (h : w.Stands c P v0 d0 l r) (hn : Numbered l) {q : Cmd}
    (hq : Fit c w q) : q.Ok c l := by
  cases q with
  | append es => exact h.batchOk hq
  | truncate k => exact hn
  | purge | vote | sync => trivial

/-- Play requests that meet the condition `C`, as long as they are answered. -/
def play (c : Cfg) (C : Writer → Cmd → Prop) [∀ w q, Decidable (C w q)] :
    List Cmd → Writer → Option (List (Cmd × Reply) × Writer)
  | [], w => some ([], w)
  | q :: qs, w =>
    if C w q then
      match step c q.action w with
      | (.ok reply, w') => (play c C qs w').map fun p => ((q, reply) :: p.1, p.2)
      | (.error _, _) => none
    else none

theorem run_of_play [∀ w q, Decidable (C w q)] {qs : List Cmd} {ps : List (Cmd × Reply)}
    (h : play c C qs w = some (ps, w')) : Run c C w ps w' := by
  induction qs generalizing w ps with
  | nil =>
    cases h
    exact .nil
  | cons q qs ih =>
    rw [play] at h
    split_ifs at h with hf
    split at h
    · next reply w1 hs =>
      obtain ⟨⟨ps', w2⟩, hp, heq⟩ := Option.map_eq_some_iff.mp h
      cases heq
      exact (Path.single ⟨hf, hs⟩).trans (ih hp)
    · exact absurd h (by simp)

theorem map_fst_of_play [∀ w q, Decidable (C w q)] {qs : List Cmd} {ps : List (Cmd × Reply)}
    (h : play c C qs w = some (ps, w')) : ps.map Prod.fst = qs := by
  induction qs generalizing w ps with
  | nil =>
    cases h
    rfl
  | cons q qs ih =>
    rw [play] at h
    split_ifs at h with hf
    split at h
    · next reply w1 hs =>
      obtain ⟨⟨ps', w2⟩, hp, heq⟩ := Option.map_eq_some_iff.mp h
      cases heq
      rw [map_cons, ih hp]
    · exact absurd h (by simp)

end Writer

end

/-! ## The first start -/

def View.blank : View := ⟨[], .idle, (0, 0), empty⟩

theorem View.ok_blank : View.blank.Ok where
  dir := rfl
  lt := by simp [View.blank]
  nodup := by simp [View.blank]
  slots := by simp [View.blank]
  chain := by simp [View.blank]
  last := by simp [View.blank]
  busy := by simp [View.blank]

namespace WalFileSet

omit [Crc] in
theorem wp_exec {s : WalFileSet} {x : SetM Unit} {d : WalDev} {Q : WalFileSet → WalDev → Prop}
    {E : Stop → WalDev → Prop} : wp (s.exec x) Q E d ↔
      wp x (fun _ p => Q p.1 p.2) (fun e p => E e p.2) (s, d) := by
  rcases hx : x (s, d) with ⟨res, s', d'⟩
  cases res with
  | ok u =>
    rw [wp_of_ok hx, wp_of_ok (a := s')]
    simp [exec, hx, Except.map]
  | error e =>
    rw [wp_of_error hx, wp_of_error (e := e)]
    simp [exec, hx, Except.map]

theorem wp_checkIntegrity_false {s : WalFileSet} {heal : Bool} {d : WalDev}
    {Q : Unit → WalFileSet × WalDev → Prop} {E : Stop → WalFileSet × WalDev → Prop}
    (h : checkFiles s.files = .ok ()) :
    wp (checkIntegrity heal false) Q E (s, d) ↔ Q () (s, d) := by
  rw [checkIntegrity, wp_bind, wp_get]
  simp only [h, Except.mapError, lift_ok, pure_bind, Bool.false_eq_true, if_false,
    ite_self, wp_pure]

end WalFileSet

def Label.Start (x : Label) : Prop := x.Plain ∨ ∃ m, x = .event (.small m)

variable [Codec]

theorem start_fresh_spec (c : Cfg) (hmin : minWalSize ≤ c.walSize) : wp (start c)
      (fun w _ => (∃ ino, w.Stands c Label.Start .blank (Dev.ofDisk empty)
        [(born 1 c.walSize ino).withMap] (0, 0)) ∧ w.metadata = ⟨none, none⟩ ∧ w.Synced)
      (fun e d => Fails c Label.Start .blank (Dev.ofDisk empty) (fun _ => False) e d)
      (Dev.ofDisk empty) := by
  have h0 : At c Label.Start .blank (Dev.ofDisk empty) [] (0, 0)
      (Dev.ofDisk empty) := ⟨.blank, .refl rfl View.ok_blank hmin, rfl, rfl, rfl⟩
  have hP : ∀ x : Label, x.Plain → x.Start := fun _ hx => .inl hx
  rw [start, wp_bind, wp_get, wp_bind, Dev.wp_sys, if_neg (by simp [Dev.ofDisk])]
  obtain ⟨v1, ht1, hv1, hp1, hr1⟩ :=
    h0.tick.small (m := ⟨⟨none, none⟩, true⟩) (.inr ⟨_, rfl⟩)
  have hE : ∀ e (d : WalDev), Fails c Label.Plain v1 ((Dev.ofDisk empty : WalDev).tick.emit
      (.small ⟨⟨none, none⟩, true⟩)) (fun _ => False) e d →
      Fails c Label.Start .blank (Dev.ofDisk empty) (fun _ => False) e d :=
    fun e d he => he.rebase ht1 hP
  rw [wp_bind, WalFileSet.read, wp_bind, wp_get]
  simp only [show WalFileSet.readDir ((Dev.ofDisk empty : WalDev).tick.emit
    (.small ⟨(Dev.ofDisk empty : WalDev).disk.small.metaFile, true⟩)).disk = [] from rfl,
    h0.new_eq (show 1 < 10 ^ 16 by norm_num) 0, lift_ok]
  rw [wp_bind, wp_pure, wp_bind, wp_zoom]
  refine wp_mono (At.createFile (X := fun _ => False) ⟨v1, ht1.here, hv1, hp1, hr1⟩
    le_rfl (by norm_num) (fun _ => rfl) (by simp)) ?_ fun e s he => hE e s.2 he
  rintro - ⟨f, d2⟩ h2
  simp only [nil_append] at h2
  -- the integrity check and the repair of the metadata have nothing to do
  have hrepair : ∀ m, repairLastPurged m ⟨some 0, [(fresh 1 c.walSize 0).file]⟩ =
      (pure m : Exec WalDev Stop Metadata) := fun m => by simp [repairLastPurged, fresh]
  rw [wp_pure, wp_bind, WalFileSet.wp_exec,
    show (Dev.ofDisk empty : WalDev).disk.small.lockFile = false from rfl,
    WalFileSet.wp_checkIntegrity_false (by rfl)]
  simp only [hrepair]
  rw [wp_bind, wp_pure, wp_bind, WalFileSet.wp_exec,
    WalFileSet.wp_onActive (show _ = [] ++ [(born 1 c.walSize 0).file] from rfl) rfl]
  refine wp_mono (At.openMmapMut (show At c Label.Plain v1 _
    ([] ++ born 1 c.walSize 0 :: []) (0, 0) d2 from h2) le_rfl) ?_
    fun e s he => hE e s.2 he
  rintro - ⟨f, d3⟩ ⟨hf, h3⟩
  simp only [nil_append] at hf h3
  rw [wp_bind, wp_get, wp_pure, hf]
  refine ⟨⟨0, ⟨rfl, rfl, by simp, rfl, rfl, .nil⟩, .cons ⟨rfl, rfl⟩ .nil,
    .trans ht1 (h3.mono hP)⟩, rfl, ?_⟩
  obtain ⟨v3, ht3, -⟩ := h3
  rw [Writer.Synced, ht3.small (fun _ hc => hc) ht1.disk]
  rfl

/-- **The first start** creates one empty file and maps it. -/
theorem start_fresh (c : Cfg) (hmin : minWalSize ≤ c.walSize) : ∃ w, boot c empty = .ok w ∧
      (∃ ino, w.Stands c Label.Start .blank (Dev.ofDisk empty)
        [(born 1 c.walSize ino).withMap] (0, 0)) ∧
      w.metadata = ⟨none, none⟩ ∧ w.Synced := by
  have h := start_fresh_spec c hmin
  rcases hs : start c (Dev.ofDisk empty) with ⟨res, d⟩
  cases res with
  | ok w => exact ⟨w, by rw [boot, hs], (wp_of_ok hs).mp h⟩
  | error e =>
    exact ((wp_of_error hs).mp h).of_reliable (Dev.reliable_ofDisk _) |>.elim

/-! ## Runs on concrete inputs -/

/-- The smallest `wal_size`. -/
def Cfg.least : Cfg := ⟨minWalSize, by decide, .immediate, true, true⟩

/-- Log ids as three numbers of eight bytes. -/
@[reducible] def plainCodec : Codec where
  serialize log := toBe 8 log.term ++ toBe 8 log.nodeId ++ toBe 8 log.index
  deserialize bs :=
    if bs.length < 24 then none
    else some ⟨ofBe (bs.take 8), ofBe ((bs.drop 8).take 8), ofBe ((bs.drop 16).take 8)⟩

namespace Writer

omit [Crc] [Codec] in
theorem acks_of_all {ps : List (Cmd × Reply)} (h : (ps.all fun q => q.2.ack.isOk) = true) :
    ∀ q ∈ ps, q.2.ack = .ok () := by
  intro q hq
  have := all_eq_true.mp h q hq
  cases hr : q.2.ack with
  | ok u => rfl
  | error e => rw [hr] at this; exact absurd this (by simp [Except.isOk, Except.toBool])

/-- The first start and the requests `qs` lead to a result that passes `T`. -/
def trial (c : Cfg) (C : Writer → Cmd → Prop) [∀ w q, Decidable (C w q)] (qs : List Cmd)
    (T : Writer → List (Cmd × Reply) → Writer → Bool) : Bool :=
  match boot c empty with
  | .ok w0 =>
    match play c C qs w0 with
    | some (ps, w) => T w0 ps w
    | none => false
  | .error _ => false

theorem of_trial (c : Cfg) (C : Writer → Cmd → Prop) [∀ w q, Decidable (C w q)] (qs : List Cmd)
    (T : Writer → List (Cmd × Reply) → Writer → Bool) (h : trial c C qs T = true) :
    ∃ w0 ps w, boot c empty = .ok w0 ∧ Run c C w0 ps w ∧ ps.map Prod.fst = qs ∧
      T w0 ps w = true := by
  rw [trial] at h
  split at h
  · next w0 h0 =>
    split at h
    · next ps w hp => exact ⟨w0, ps, w, h0, run_of_play hp, map_fst_of_play hp, h⟩
    · exact absurd h (by simp)
  · exact absurd h (by simp)

end Writer

end Hiqlite.Wal
