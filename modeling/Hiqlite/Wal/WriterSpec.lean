import Hiqlite.Wal.Mirror
import Hiqlite.Wal.RemoveSpec

/-!
# W12 — what the branches of the writer loop do

Each branch leads from the files `l` to the files `l'` along a path of moves, and publishes what it
leaves behind: **`append_spec`**, **`flushBlocking_spec`**, **`remove_spec`**.
-/

namespace Hiqlite.Wal

open List Option Exec Slot WalFileSet

def nos (l : List Slot) : List ℕ := l.map fun a => a.file.walNo

theorem map_walNo (l : List Slot) : (l.map file).map WalFile.walNo = nos l := map_map ..

namespace Writer

/-- The set of the writer shows the files `l`. The published set does so as well, up to the header
of the last file. -/
structure Shows (w : Writer) (l : List Slot) : Prop where
  files : w.wal.files = l.map file
  active : w.wal.active = some (l.length - 1)
  ne_nil : l ≠ []
  locked : w.locked.active = w.wal.active
  published : w.locked.files.map WalFile.walNo = nos l
  agrees : Forall₂ WalFile.Agrees w.locked.files.dropLast w.wal.files.dropLast

variable [Crc]

/-- The writer stands at the files `l`, and has published them. -/
structure Stands (c : Cfg) (P : Label → Prop) (v0 : View) (d0 : WalDev) (w : Writer)
    (l : List Slot) (r : ℕ × ℕ) : Prop where
  shows : w.Shows l
  mirror : Forall₂ WalFile.Agrees w.locked.files w.wal.files
  pos : At c P v0 d0 l r w.dev

end Writer

variable [Crc]

section

variable {c : Cfg} {P : Label → Prop} {v0 : View} {d0 d : WalDev} {r : ℕ × ℕ} {X : Stop → Prop}
  {ss ts l l0 : List Slot} {a : Slot} {w : Writer} {es : List Entry} {e : Entry}

/-! ## Rules -/

theorem Fails.ne_err {e : Stop} (h : Fails c P v0 d0 X e d) (hrel : d0.Reliable)
    (hX : ∀ e, ¬ X (.err e)) : ∀ e', e ≠ .err e' := by
  rintro e' rfl
  exact hX e' (h.of_reliable hrel)

namespace At

theorem note (h : At c P v0 d0 l r d) {x : Note} (hP : P (.event (.note x)))
    (hx : ∀ v : View, v.slots = l → x.Fair c v) :
    At c P v0 d0 l (x.request r) (d.emit (.note x)) := by
  obtain ⟨v, ht, hv, hp, rfl⟩ := h
  exact ⟨_, ht.event (.note v x hp (hx v hv)) hP, hv, hp, rfl⟩

theorem small (h : At c P v0 d0 l r d) {m : Small} (hP : P (.event (.small m))) :
    At c P v0 d0 l r (d.emit (.small m)) := by
  obtain ⟨v, ht, hv, hp, hr⟩ := h
  exact ⟨_, ht.event (.small v m) hP, hv, hp, hr⟩

theorem appendLog (h : At c P v0 d0 (ss ++ [a]) r d)
    (hP : Label.Grow ≤ P) (hm : a.file.mmapMut.isSome) (he : EntryOk e)
    (hroom : a.Room e) (hf : Follows ss a e) {E : Stop → WalFile × WalDev → Prop} :
    wp (WalFile.appendLog e.1 e.2)
      (fun _ s => s.1 = (a.pushed e).file ∧ At c P v0 d0 (ss ++ [a.pushed e]) r s.2) E
      (a.file, d) := by
  rw [WalFile.wp_appendLog (h.slot (by simp)) (h.mmapMut (by simp) hm) hroom]
  obtain ⟨v, ht, hv, hp, rfl⟩ := h
  obtain ⟨v', ht', hv', hp', hr'⟩ :=
    appendLog_tracks ht.here hv hp he hroom hf
  refine ⟨?_, v', ht.trans (ht'.mono hP), hv', hp', hr'⟩
  rw [pushed]
  split_ifs <;> rfl

theorem panic (h : At c P v0 d0 l r d) {p : Panic} (hX : X (.panic p)) :
    Fails c P v0 d0 X (.panic p) d := by
  obtain ⟨v, ht, -⟩ := h
  exact ⟨⟨v, ht⟩, .inl hX⟩

end At

namespace WalFile

variable {f : WalFile}

variable {Q : Unit → WalFile × WalDev → Prop} {E : Stop → WalFile × WalDev → Prop}

omit [Crc] in
theorem wp_writeSlice_none (hm : f.mmapMut = none) {k : WriteKind} {lo hi : ℕ} {bs : Bytes} :
    wp (writeSlice k lo hi bs) Q E (f, d) ↔ E (.panic .unwrapMmapMut) (f, d) := by
  simp only [writeSlice, wp_bind, wp_get, hm, unwrap_none, wp_stop]

omit [Crc] in
theorem wp_updateHeader_none (hm : f.mmapMut = none) :
    wp updateHeader Q E (f, d) ↔ E (.panic .unwrapMmapMut) (f, d) := by
  simp only [updateHeader, wp_bind, wp_get, wp_writeSlice_none hm]

theorem wp_appendLog_none (hm : f.mmapMut = none) (hE : ∀ p g, E (.panic p) (g, d)) :
    wp (appendLog e.1 e.2) Q E (f, d) := by
  simp only [appendLog, wp_bind, wp_get, wp_ite, wp_modifyFile, wp_pure]
  split_ifs with hs
  · refine (wp_writeSlice_none ?_).mpr (hE _ _)
    exact hm
  · cases hd : f.dataEnd with
    | none => exact hE _ _
    | some x =>
      rw [unwrap_some, wp_pure, wp_bind, wp_pure, wp_bind]
      exact (wp_writeSlice_none hm).mpr (hE _ _)

end WalFile

namespace Writer

variable {E : Stop → Writer → Prop}

section

omit [Crc]

theorem wp_onWal {α : Type} {x : SetM α} {Q : α → Writer → Prop} : wp (onWal x) Q E w ↔
      wp x (fun r s => Q r { w with wal := s.1, dev := s.2 })
        (fun e s => E e { w with wal := s.1, dev := s.2 }) (w.wal, w.dev) :=
  wp_zoom

theorem wp_reported {x : WriterM Unit} {Q : Except Error Unit → Writer → Prop} :
    wp (reported x) Q E w ↔
      wp x (fun _ => Q (.ok ()))
        (fun e w' => match e with
          | .err e => Q (.error e) w'
          | p => E p w') w := by
  rw [reported, wp_bind, wp_attempt]
  rcases hx : x w with ⟨res, w'⟩
  cases res with
  | ok u => rw [wp_of_ok hx, wp_of_ok hx, wp_pure]
  | error e =>
    rw [wp_of_error hx, wp_of_error hx]
    cases e <;> rfl

theorem wp_reported_ok {x : WriterM Unit} {Q : Writer → Prop}
    (h : wp x (fun _ => Q) (fun e w' => E e w' ∧ ∀ e', e ≠ .err e') w) :
    wp (reported x) (fun res w' => res = .ok () ∧ Q w') E w := by
  rw [wp_reported]
  refine wp_mono h (fun _ w' hq => ⟨rfl, hq⟩) fun e w' he => ?_
  cases e with
  | err e => exact absurd rfl (he.2 e)
  | panic | diverge => exact he.1

theorem wp_note {x : Note} {Q : Unit → Writer → Prop} :
    wp (note x) Q E w ↔ Q () { w with dev := w.dev.emit (.note x) } := Iff.rfl

theorem Shows.split (h : w.Shows l) : ∃ ss a, l = ss ++ [a] :=
  (eq_nil_or_concat' l).resolve_left h.ne_nil

end

section

variable (h : w.Shows (ss ++ [a]))
include h

section

omit [Crc]

theorem Shows.files_concat : w.wal.files = ss.map file ++ [a.file] := by
  rw [h.files, map_append, map_singleton]

theorem Shows.active_concat : w.wal.active = some (ss.map file).length := by
  rw [h.active, length_append, length_singleton, Nat.add_sub_cancel, length_map]

theorem Shows.setLast {b : Slot} (hno : b.file.walNo = a.file.walNo) : Shows { w with
      wal := { w.wal with files := ss.map file ++ [b.file] }
      dev := d } (ss ++ [b]) := by
  refine ⟨by simp, by simpa using h.active, by simp, h.locked, ?_, ?_⟩
  · rw [h.published]
    simp [nos, hno]
  · have := h.agrees
    rw [h.files_concat, dropLast_concat] at this
    rw [dropLast_concat]
    exact this

theorem wp_activeFile {Q : WalFile → Writer → Prop} : wp activeFile Q E w ↔ Q a.file w := by
  simp only [activeFile, wp_bind, wp_get, h.active_concat, unwrap_some, wp_pure,
    h.files_concat]
  rw [getElem?_concat_length, unwrap_some, wp_pure]

end

end

/-! ## Publishing -/

theorem publishFiles_spec (h : At c P v0 d0 l r w.dev) (hP : ∀ fs, P (.event (.note (.publish fs))))
    (hf : w.wal.files = l.map file) (ha : w.wal.active = some (l.length - 1)) (hne : l ≠ [])
    (hold : w.locked.files.map WalFile.walNo = nos l0)
    (hp : (nos l0).filter (· ∈ nos l) <+: nos l) : wp publishFiles
      (fun _ w' => w'.Stands c P v0 d0 l r ∧ w'.metadata = w.metadata ∧
        w'.dev.disk = w.dev.disk) E w := by
  have hnos : w.wal.files.map WalFile.walNo = nos l := by rw [hf, map_walNo]
  obtain ⟨gs, hgs, hagree, -⟩ := cloneFilesFromNoMmap_spec w.locked.files w.wal.files
    (by rw [hold, hnos]; exact hp)
  simp only [publishFiles, wp_bind, wp_get, hgs, lift_ok, wp_pure,
    wp_modify, wp_note]
  have hpub : gs.map WalFile.walNo = nos l := (Agrees.nos hagree).trans hnos
  refine ⟨⟨⟨hf, ha, hne, rfl, hpub, ?_⟩, hagree, ?_⟩, trivial, rfl⟩
  · rw [dropLast_eq_take, dropLast_eq_take, hagree.length_eq]
    exact forall₂_take _ hagree
  · exact h.note (hP gs) fun v hv => by
      rw [Note.Fair, hpub, hv]
      rfl

omit [Crc] in
theorem wp_publishActive {i j : ℕ} {f g : WalFile} (hi : w.wal.active = some i)
    (hf : w.wal.files[i]? = some f) (hj : w.locked.active = some j)
    (hg : w.locked.files[j]? = some g) {Q : Unit → Writer → Prop} : wp publishActive Q E w ↔
      Q () { w with
        locked := { w.locked with files := w.locked.files.set j (g.cloneFromNoMmap f) }
        dev := w.dev.emit (.note (.publish (w.locked.files.set j (g.cloneFromNoMmap f)))) } := by
  simp only [publishActive, wp_bind, wp_get, hi, hf, hj, hg, unwrap_some,
    wp_pure, wp_modify, wp_note]

theorem publishActive_spec (h : At c P v0 d0 l r w.dev)
    (hP : ∀ fs, P (.event (.note (.publish fs)))) (hs : w.Shows l) : wp publishActive
      (fun _ w' => w'.Stands c P v0 d0 l r ∧ w'.metadata = w.metadata) E w := by
  obtain ⟨ss, a, rfl⟩ := hs.split
  obtain ⟨gs, g, hg⟩ := (eq_nil_or_concat' w.locked.files).resolve_left (by
    intro hc
    have := hs.published
    simp [hc, nos] at this)
  have hpub := hs.published
  have hagree := hs.agrees
  have hlen : gs.length = ss.length := by
    have := congrArg length hpub
    simpa [hg, nos] using this
  have hno : g.walNo = a.file.walNo := by
    rw [hg, nos, map_append, map_append] at hpub
    simpa using (append_inj' hpub rfl).2
  rw [hg, hs.files_concat, dropLast_concat, dropLast_concat] at hagree
  have hact : w.wal.active = some ss.length := by
    rw [hs.active_concat, length_map]
  rw [wp_publishActive hact
    (show w.wal.files[ss.length]? = some a.file by
      rw [hs.files_concat, ← length_map (f := file), getElem?_concat_length])
    (hs.locked.trans hact)
    (show w.locked.files[ss.length]? = some g by
      rw [hg, ← hlen, getElem?_concat_length])]
  have hset : w.locked.files.set ss.length (g.cloneFromNoMmap a.file) =
      gs ++ [g.cloneFromNoMmap a.file] := by
    rw [hg, ← hlen, set_append_right _ _ le_rfl, Nat.sub_self]
    rfl
  simp only [hset]
  have hmirror : Forall₂ WalFile.Agrees (gs ++ [g.cloneFromNoMmap a.file]) w.wal.files := by
    rw [hs.files_concat]
    exact rel_append hagree (.cons ⟨hno, rfl⟩ .nil)
  have hpub' : (gs ++ [g.cloneFromNoMmap a.file]).map WalFile.walNo = nos (ss ++ [a]) := by
    rw [Agrees.nos hmirror, hs.files, map_walNo]
  refine ⟨⟨⟨hs.files, hs.active, hs.ne_nil, hs.locked, hpub', ?_⟩, hmirror, ?_⟩, trivial⟩
  · simp only [hs.files_concat, dropLast_concat]
    exact hagree
  · refine h.note (hP _) fun v hv => ?_
    rw [Note.Fair, hpub', hv]
    rfl

/-! ## Appending -/

theorem rollOver_spec (h : At c P v0 d0 (ss ++ [a]) r w.dev)
    (hP : Label.Grow ≤ P) (hs : w.Shows (ss ++ [a]))
    (hX : X (.panic .sliceIndex)) (hm : a.file.mmapMut.isSome ∨ ∀ p, X (.panic p))
    (hne : a.recs ≠ []) : wp (rollOver c)
      (fun _ w' => ∃ ino, w'.Stands c P v0 d0 (rolled c ss a ino) r ∧
        w'.metadata = w.metadata)
      (fun e w' => Fails c P v0 d0 X e w'.dev) w := by
  rw [rollOver, wp_bind, wp_onWal]
  by_cases hmap : a.file.mmapMut.isSome
  swap
  · rw [WalFileSet.rollOver, wp_bind, wp_onActive hs.files_concat hs.active_concat,
      wp_bind, WalFile.wp_updateHeader_none (by simpa using hmap)]
    exact h.panic (hm.resolve_left hmap _)
  refine wp_imp (WalFileSet.rollOver_spec h (fun x hx => hP x hx.grow)
    (hP .number trivial) hs.files (by rw [hs.active_concat, length_map]) hX hmap hne) ?_
  rintro - ⟨t, d⟩ ⟨ino, hf, ha, h1⟩
  simp only at hf ha h1
  have hnos : nos (rolled c ss a ino) = nos (ss ++ [a]) ++ [a.file.walNo + 1] := by
    simp [nos, rolled, flushed, noMap, numbered, withMap, born,
      fresh]
  refine wp_imp (publishFiles_spec (w := { w with wal := t, dev := d }) h1
    (fun fs => hP (.event (.note (.publish fs))) trivial) hf
    (by rw [ha]; simp [rolled]) (by simp [rolled]) hs.published ?_)
    (fun _ w' hw => ⟨ino, hw.1, hw.2.1⟩)
  rw [hnos, filter_eq_self.mpr (by simp +contextual)]
  exact prefix_append _ _

end Writer

/-- The entries of a batch can be stored behind the files `l`: they fit, and the ids continue the
log. -/
structure BatchOk (c : Cfg) (l : List Slot) (es : List Entry) : Prop where
  ok : ∀ e ∈ es, EntryOk e
  fits : ∀ e ∈ es, e.2.length + 48 ≤ c.walSize
  first : ∀ e ∈ es.head?, ∀ a ∈ l.getLast?, a.recs = [] → e.2.length + 49 < a.file.lenMax
  consec : Consec (l.flatMap recs ++ es)

theorem At.follows (h : At c P v0 d0 (ss ++ [a]) r d)
    (hc : Consec ((ss ++ [a]).flatMap recs ++ e :: es)) : Follows ss a e := by
  obtain ⟨v, hok, hv, -, -⟩ := h.view
  have key : ∀ p : Slot, p ∈ v.slots → p.recs ≠ [] → Consec (p.recs ++ e :: es) →
      e.1 = p.file.idUntil + 1 := by
    intro p hp hne hcp
    obtain ⟨s, hs⟩ := (body_of_ne_nil hne).mp (hok.slots p hp).body
    rw [hs.ids]
    exact (numFrom_cons.mp (hs.num.of_consec_append hne hcp)).1
  refine ⟨fun hne => ?_, fun hnil p hp => ?_⟩
  · refine key a (by rw [hv]; simp) hne ?_
    simp only [flatMap_append, flatMap_singleton, append_assoc] at hc
    exact hc.right
  · obtain ⟨ss', rfl⟩ := getLast?_eq_some_iff.mp hp
    have hlink := hok.link (show v.slots = ss' ++ p :: a :: [] by rw [hv]; simp)
    refine key p (by rw [hv]; simp) hlink.1.1 ?_
    simp only [flatMap_append, flatMap_singleton, hnil, append_assoc,
      nil_append] at hc
    exact hc.right

theorem At.room (h : At c P v0 d0 (ss ++ [a]) r d)
    (hs : a.file.hasSpace e.2.length = true) : a.Room e := by
  have ha := h.slot (a := a) (by simp)
  rw [WalFile.hasSpace, decide_eq_true_eq] at hs
  rw [Room]
  rcases ha.body with ⟨-, hv⟩ | ⟨hne, s, hh⟩
  · rw [hv.next]
    rw [hv.stop, getD_none] at hs
    omega
  · rw [hh.next rfl hne]
    have := add_le_endOf s hne
    rw [hh.stop, getD_some] at hs
    omega

namespace Writer

omit [Crc] in
theorem backed_seal (h : ∀ b ∈ ss, b.file.mmapMut = none → b.hdr = some b.file.toHeader) :
    ∀ b ∈ ss ++ [a.flushed.noMap], b.file.mmapMut = none → b.hdr = some b.file.toHeader := by
  intro b hb hm
  rcases mem_append.mp hb with hb | hb
  · exact h b hb hm
  · rw [mem_singleton.mp hb]
    rfl

theorem makeRoom_spec (h : At c P v0 d0 (ss ++ [a]) r w.dev)
    (hP : Label.Grow ≤ P) (hs : w.Shows (ss ++ [a]))
    (hX : X (.panic .sliceIndex)) (hm : a.file.mmapMut.isSome ∨ ∀ p, X (.panic p))
    (hb : BatchOk c (ss ++ [a]) (e :: es)) : wp (makeRoom c e.2.length)
      (fun _ w' => ∃ ss' b, w'.Shows (ss' ++ [b]) ∧ At c P v0 d0 (ss' ++ [b]) r w'.dev ∧
        b.Room e ∧ (b.file.mmapMut.isSome ∨ ∀ p, X (.panic p)) ∧
        (Backed (ss ++ [a]) → Backed (ss' ++ [b])) ∧
        (ss' ++ [b]).flatMap recs = (ss ++ [a]).flatMap recs ∧ w'.metadata = w.metadata)
      (fun e w' => Fails c P v0 d0 X e w'.dev) w := by
  rw [makeRoom, wp_bind, wp_activeFile hs, wp_ite]
  split_ifs with hsp
  · exact ⟨ss, a, hs, h, h.room hsp, hm, id, rfl, rfl⟩
  · have hne : a.recs ≠ [] := by
      intro hnil
      have hv : Vacant a.file.toHeader := by
        have := (h.slot (a := a) (by simp)).body
        rwa [hnil, body_nil] at this
      have := hb.first e rfl a (by simp) hnil
      simp only [WalFile.hasSpace, hv.stop, getD_none, offsetLogs, decide_eq_true_eq] at hsp
      omega
    refine wp_imp (rollOver_spec h hP hs hX hm hne) ?_
    rintro - w' ⟨ino, hst, hmeta⟩
    have hcat : rolled c ss a ino = (ss ++ [a.flushed.noMap]) ++
        [((born (a.file.walNo + 1) c.walSize ino).withMap).numbered (a.file.idUntil + 1)] := by
      simp [rolled]
    rw [hcat] at hst
    refine ⟨_, _, hst.shows, hst.pos, ?_, .inl rfl,
      fun hbk => backed_concat.mpr (backed_seal (backed_concat.mp hbk)), ?_, hmeta⟩
    · have := hb.fits e (by simp)
      simp only [Slot.Room, Slot.next, numbered, withMap, born, fresh,
        Header.unused, map_none, getD_none, offsetLogs]
      omega
    · simp [flushed, noMap, numbered, withMap, born, fresh]

theorem appendEntries_spec (hP : Label.Grow ≤ P) (hX : X (.panic .sliceIndex))
    (h : At c P v0 d0 l r w.dev) (hs : w.Shows l) (hm : LastMapped l ∨ ∀ p, X (.panic p))
    (hb : BatchOk c l es) : wp (appendEntries c es)
      (fun res w' => res = .ok () ∧ ∃ l', w'.Shows l' ∧ At c P v0 d0 l' r w'.dev ∧
        (LastMapped l' ∨ ∀ p, X (.panic p)) ∧ (Numbered l → Numbered l') ∧ (Backed l → Backed l') ∧
        l'.flatMap recs = l.flatMap recs ++ es ∧ w'.metadata = w.metadata)
      (fun e w' => Fails c P v0 d0 X e w'.dev) w := by
  induction es generalizing l w with
  | nil => exact ⟨rfl, l, hs, h, hm, id, id, by simp, rfl⟩
  | cons e es ih =>
    obtain ⟨ss, a, rfl⟩ := hs.split
    rw [lastMapped_concat] at hm
    have hfit := hb.fits e (by simp)
    rw [appendEntries, if_neg (by rw [dataLenLimit, offsetLogs]; omega), wp_bind]
    refine wp_imp (makeRoom_spec h hP hs hX hm hb) ?_
    rintro - w1 ⟨ss', b, hs1, h1, hroom, hm1, hbk1, hrecs1, hmeta1⟩
    have hfol : Follows ss' b e := h1.follows (by rw [hrecs1]; exact hb.consec)
    rw [wp_bind, wp_reported, wp_onWal,
      wp_onActive hs1.files_concat hs1.active_concat]
    by_cases hmap : b.file.mmapMut.isSome
    swap
    · refine WalFile.wp_appendLog_none (by simpa using hmap) fun p g => ?_
      exact h1.panic (hm1.resolve_left hmap p)
    refine wp_imp (h1.appendLog hP hmap (hb.ok e (by simp)) hroom hfol) ?_
    rintro - ⟨f, d⟩ ⟨hf, h2⟩
    simp only at hf h2
    subst hf
    have hpr : (b.pushed e).recs = b.recs ++ [e] := by
      rw [pushed]
      split_ifs <;> rfl
    have hpf : (b.pushed e).file = (b.push e).file := by
      rw [pushed]
      split_ifs <;> rfl
    have hrecs2 : (ss' ++ [b.pushed e]).flatMap recs =
        (ss ++ [a]).flatMap recs ++ [e] := by
      rw [← hrecs1]
      simp [hpr]
    refine wp_imp (ih h2 (hs1.setLast (by rw [hpf]; rfl)) ?_ ?_) ?_
    · rw [lastMapped_concat, hpf]
      exact .inl hmap
    · refine ⟨fun x hx => hb.ok x (by simp [hx]), fun x hx => hb.fits x (by simp [hx]),
        fun _ _ y hy hnil => ?_, by rw [hrecs2]; simpa using hb.consec⟩
      obtain rfl : b.pushed e = y := by simpa using hy
      simp [hpr] at hnil
    · rintro res w3 ⟨rfl, l', hs3, h3, hm3, hn3, hbk3, hrecs3, hmeta3⟩
      refine ⟨rfl, l', hs3, h3, hm3, fun _ => hn3 (numbered_concat.mpr fun _ hc => ?_),
        fun hbk => hbk3 (backed_concat.mpr (backed_concat.mp (hbk1 hbk))),
        by rw [hrecs3, hrecs2]; simp, hmeta3.trans hmeta1⟩
      have := hc.1
      simp [hpr] at this

/-! ## Flushing -/

section

variable (h : At c P v0 d0 (ss ++ [a]) r w.dev) (hP : Label.Plain ≤ P)
  (hs : w.Shows (ss ++ [a])) (hm : a.file.mmapMut.isSome ∨ ∀ p, X (.panic p))
include h hP hs hm

theorem flushActive_spec : wp (onWal (onActive do WalFile.updateHeader; WalFile.flush))
      (fun _ w' => ∃ d, w' = { w with dev := d } ∧ At c P v0 d0 (ss ++ [a.flushed]) r d)
      (fun e w' => Fails c P v0 d0 X e w'.dev ∧ w'.metadata = w.metadata) w := by
  rw [wp_onWal, wp_onActive hs.files_concat hs.active_concat]
  by_cases hmap : a.file.mmapMut.isSome
  swap
  · rw [wp_bind, WalFile.wp_updateHeader_none (by simpa using hmap)]
    exact ⟨h.panic (hm.resolve_left hmap _), rfl⟩
  refine wp_mono (h.header_flush hP hmap) ?_ fun _ _ he => ⟨he, rfl⟩
  rintro - ⟨f, d⟩ ⟨hf, h1⟩
  simp only at hf h1
  refine ⟨d, ?_, h1⟩
  rw [hf, ← hs.files_concat]

theorem flushBlocking_spec : wp flushBlocking
      (fun _ w' => ∃ d b, w' = { w with dev := d, isDirty := false } ∧
        At c P v0 d0 (ss ++ [b]) r d ∧ (b = a.flushed ∨ b = a ∧ w.isDirty = false))
      (fun e w' => Fails c P v0 d0 X e w'.dev ∧ w'.metadata = w.metadata) w := by
  rw [flushBlocking, wp_bind, wp_get, wp_ite]
  split_ifs with hd
  · rw [wp_bind]
    refine wp_imp (flushActive_spec h hP hs hm) ?_
    rintro - w' ⟨d, rfl, h1⟩
    exact ⟨d, a.flushed, rfl, h1, .inl rfl⟩
  · have hd' : w.isDirty = false := by simpa using hd
    refine ⟨w.dev, a, ?_, h, .inr ⟨rfl, hd'⟩⟩
    rw [← hd']

end

theorem syncBatch_spec (h : At c P v0 d0 (ss ++ [a]) r w.dev)
    (hrel : d0.Reliable) (hP : Label.Plain ≤ P) (hs : w.Shows (ss ++ [a]))
    (hX : ∀ e, ¬ X (.err e)) (hm : a.file.mmapMut.isSome ∨ ∀ p, X (.panic p))
    (hd : w.isDirty = true) : wp (syncBatch c)
      (fun res w' => res = .ok () ∧ ∃ d i b, w' = { w with dev := d, isDirty := i } ∧
        At c P v0 d0 (ss ++ [b]) r d ∧ (b = a.flushed ∨ b = a ∧ c.sync ≠ .immediate))
      (fun e w' => Fails c P v0 d0 X e w'.dev) w := by
  cases hc : c.sync with
  | immediate =>
    simp only [syncBatch, hc]
    refine wp_reported_ok (wp_mono (flushBlocking_spec h hP hs hm) ?_
      fun _ _ he => ⟨he.1, he.1.ne_err hrel hX⟩)
    rintro - w' ⟨d, b, rfl, h1, hb⟩
    refine ⟨d, false, b, rfl, h1, .inl (hb.resolve_right fun hb' => ?_)⟩
    rw [hd] at hb'
    exact absurd hb'.2 (by simp)
  | immediateAsync =>
    simp only [syncBatch, hc]
    refine wp_reported_ok ?_
    rw [wp_onWal, wp_onActive hs.files_concat hs.active_concat]
    simp only [WalFile.flushAsync, wp_bind, wp_get]
    cases hmap : a.file.mmapMut with
    | none => exact ⟨h.panic (hm.resolve_left (by simp [hmap]) _), by simp⟩
    | some i =>
      rw [unwrap_some, wp_pure, WalFile.wp_onDev, Dev.wp_ask]
      split_ifs with hf
      · exact absurd ((h.fails (X := X) (e := .err (.io .other)) hf).of_reliable hrel) (hX _)
      · refine ⟨w.dev.tick, w.isDirty, a, ?_, h.tick, .inr ⟨rfl, by simp⟩⟩
        rw [← hs.files_concat]
  | intervalMillis n =>
    simp only [syncBatch, hc]
    exact ⟨rfl, w.dev, w.isDirty, a, rfl, h, .inr ⟨rfl, by simp⟩⟩

theorem Stands.move {l' : List Slot} {r' : ℕ × ℕ} {w' : Writer} (h : w.Stands c P v0 d0 l r)
    (hw : w'.wal = w.wal) (hk : w'.locked = w.locked) (hl : l'.map file = l.map file)
    (hpos : At c P v0 d0 l' r' w'.dev) : w'.Stands c P v0 d0 l' r' := by
  have hs := h.shows
  have hlen : l'.length = l.length := by simpa using congrArg length hl
  refine ⟨⟨by rw [hw, hl]; exact hs.files, by rw [hw, hlen]; exact hs.active, ?_,
    by rw [hw, hk]; exact hs.locked, ?_, by rw [hw, hk]; exact hs.agrees⟩,
    by rw [hw, hk]; exact h.mirror, hpos⟩
  · rintro rfl
    exact hs.ne_nil (by simpa using hl.symm)
  · rw [hk, hs.published, ← map_walNo, ← map_walNo, hl]

theorem rollAhead_spec (h : w.Stands c P v0 d0 (ss ++ [a]) r) (hP : Label.Grow ≤ P)
    (hX : X (.panic .sliceIndex)) (hm : a.file.mmapMut.isSome ∨ ∀ p, X (.panic p)) :
    wp (rollAhead c)
      (fun _ w' => ∃ l', w'.Stands c P v0 d0 l' r ∧ (LastMapped l' ∨ ∀ p, X (.panic p)) ∧
        (Numbered (ss ++ [a]) → Numbered l') ∧ (Backed (ss ++ [a]) → Backed l') ∧
        l'.flatMap recs = (ss ++ [a]).flatMap recs ∧ w'.metadata = w.metadata)
      (fun e w' => Fails c P v0 d0 X e w'.dev) w := by
  rw [rollAhead, wp_bind, wp_activeFile h.shows, wp_ite]
  split_ifs with hsp
  · have hne : a.recs ≠ [] := by
      intro hnil
      have ha := h.pos.slot (a := a) (by simp)
      have hmin' := ha.min_le
      have hv : Vacant a.file.toHeader := by
        have := ha.body
        rwa [hnil, body_nil] at this
      rw [WalFile.spaceLeft, hv.stop, getD_none, offsetLogs] at hsp
      rw [minWalSize] at hmin'
      omega
    refine wp_imp (rollOver_spec h.pos hP h.shows hX hm hne) ?_
    rintro - w' ⟨ino, hst, hmeta⟩
    refine ⟨_, hst, .inl ?_, fun _ x hx hc => ?_, fun hbk => ?_, ?_, hmeta⟩
    · simp [LastMapped, rolled, numbered, withMap]
    · obtain ⟨-, hc⟩ := hc
      cases ss <;> simp [rolled] at hx <;> subst hx <;>
        simp [numbered, Header.unused] at hc
    · rw [rolled, append_cons, backed_concat]
      exact backed_seal (backed_concat.mp hbk)
    · simp [rolled, flushed, noMap, numbered, withMap, born,
        fresh]
  · exact ⟨ss ++ [a], h, by simpa using hm, id, id, rfl, rfl⟩

theorem append_spec (h : w.Stands c P v0 d0 l r) (hrel : d0.Reliable) (hP : Label.Grow ≤ P)
    (hX : X (.panic .sliceIndex)) (hX' : ∀ e, ¬ X (.err e))
    (hm : LastMapped l ∨ ∀ p, X (.panic p)) (hb : BatchOk c l es) : wp (append c es)
      (fun reply w' => reply = ⟨.ok (), some (.ok ())⟩ ∧ ∃ l', w'.Stands c P v0 d0 l' (0, 0) ∧
        (LastMapped l' ∨ ∀ p, X (.panic p)) ∧ (Numbered l → Numbered l') ∧ (Backed l → Backed l') ∧
        l'.flatMap recs = l.flatMap recs ++ es ∧ w'.metadata = w.metadata)
      (fun e w' => Fails c P v0 d0 X e w'.dev) w := by
  have hP' : ∀ fs, P (.event (.note (.publish fs))) :=
    fun fs => hP (.event (.note (.publish fs))) trivial
  rw [append, wp_bind]
  refine wp_imp (appendEntries_spec hP hX h.pos h.shows hm hb) ?_
  rintro res w1 ⟨rfl, l1, hs1, h1, hm1, hn1, hbk1, hrecs1, hmeta1⟩
  rw [wp_bind]
  refine wp_imp (publishActive_spec h1 hP' hs1) ?_
  rintro - w2 ⟨hst2, hmeta2⟩
  obtain ⟨ss, a, rfl⟩ := hs1.split
  rw [lastMapped_concat] at hm1
  rw [wp_bind, wp_modify, wp_bind]
  have hst2' : Stands c P v0 d0 { w2 with isDirty := true } (ss ++ [a]) r :=
    hst2.move rfl rfl rfl hst2.pos
  refine wp_imp (syncBatch_spec hst2'.pos hrel (fun x hx => hP x hx.grow) hst2'.shows hX'
    hm1 rfl) ?_
  rintro res w3 ⟨rfl, d, i, b, rfl, h3, hb3⟩
  have hfile : b.file = a.file := by rcases hb3 with rfl | ⟨rfl, -⟩ <;> rfl
  have hbrecs : b.recs = a.recs := by rcases hb3 with rfl | ⟨rfl, -⟩ <;> rfl
  -- with a flush of every batch, all files are covered by one
  have hfair : ∀ v : View, v.slots = ss ++ [b] → (Note.callback es).Fair c v := by
    intro v hv
    refine ⟨fun e he => ?_, fun hc x hx => ?_⟩
    · rw [View.log, hv, flatMap_append, flatMap_singleton, hbrecs,
        ← flatMap_singleton recs a, ← flatMap_append, hrecs1]
      exact mem_append_right _ he
    · obtain ⟨u, hok, hu, -, -⟩ := h3.view
      rw [hv] at hx
      rcases mem_append.mp hx with hx | hx
      · exact (hok.sealed hu hx).2.1
      · rw [mem_singleton.mp hx, hb3.resolve_right fun hb' => hb'.2 hc]
        rfl
  simp only [Except.bind, callback]
  rw [wp_bind, wp_note, wp_bind]
  have hst3 : Stands c P v0 d0 { w2 with
      isDirty := i
      dev := d.emit (.note (.callback es)) } (ss ++ [b]) (0, 0) :=
    hst2.move rfl rfl (by simp [hfile])
      (h3.note (hP (.event (.note (.callback es))) trivial) hfair)
  refine wp_imp (rollAhead_spec hst3 hP hX (by rwa [hfile])) ?_
  rintro - w4 ⟨l', hst4, hm4, hn4, hbk4, hrecs4, hmeta4⟩
  refine ⟨rfl, l', hst4, hm4, fun hn => hn4 ?_,
    fun hbk => hbk4 (backed_concat.mpr (backed_concat.mp (hbk1 hbk))), ?_,
    hmeta4.trans (hmeta2.trans hmeta1)⟩
  · have := hn1 hn
    rw [numbered_concat, Unused] at this ⊢
    rwa [hbrecs, hfile]
  rw [hrecs4, ← hrecs1, flatMap_append, flatMap_append, flatMap_singleton,
    flatMap_singleton, hbrecs]

end Writer

end

/-! ## Removing -/

section

variable {c : Cfg} {P P' : Label → Prop} {v0 v : View} {d0 d : WalDev} {r : ℕ × ℕ}
  {X : Stop → Prop} {ss l l' : List Slot} {a : Slot} {w : Writer}

namespace Writer

theorem Stands.here (h : w.Stands c P v0 d0 l r) :
    ∃ v, Tracks c P v0 d0 v w.dev ∧ v.slots = l ∧ v.phase = .idle ∧ v.request = r ∧
      ∀ P', w.Stands c P' v w.dev l r := by
  obtain ⟨v, ht, hv, hp, hr⟩ := h.pos
  exact ⟨v, ht, hv, hp, hr, fun P' => ⟨h.shows, h.mirror, v, ht.here, hv, hp, hr⟩⟩

theorem Stands.rebase (h : w.Stands c P' v d l r) (ht : Tracks c P v0 d0 v d)
    (hP : P' ≤ P) : w.Stands c P v0 d0 l r :=
  ⟨h.shows, h.mirror, .trans ht (h.pos.mono hP)⟩

end Writer

theorem Fails.rebase {e : Stop} {d1 : WalDev} (h : Fails c P' v d X e d1)
    (ht : Tracks c P v0 d0 v d) (hP : P' ≤ P) : Fails c P v0 d0 X e d1 := by
  obtain ⟨⟨u, hu⟩, hstop⟩ := h
  rw [ht.fault] at hstop
  exact ⟨⟨u, ht.trans (hu.mono hP)⟩, hstop⟩

omit [Crc] in
theorem nos_of_same (h : Forall₂ Same l l') : nos l' = nos l := by
  induction h with
  | nil => rfl
  | cons hab _ ih =>
    rw [nos, nos, map_cons, map_cons, hab.no]
    exact congrArg _ ih

omit [Crc] in
theorem Shrunk.filter_prefix (h : Shrunk c l l') (hn : (nos l).Nodup) :
    (nos l).filter (· ∈ nos l') <+: nos l' := by
  obtain ⟨m, hm, hsame⟩ := h
  rw [nos_of_same hsame]
  rcases hm with ⟨p, q, rfl⟩ | ⟨ino, rfl⟩
  · have hcat : nos (p ++ m ++ q) = nos p ++ nos m ++ nos q := by simp [nos]
    rw [hcat] at hn ⊢
    rw [nodup_append, nodup_append] at hn
    obtain ⟨⟨-, -, h1⟩, -, h2⟩ := hn
    rw [filter_append, filter_append,
      filter_eq_nil_iff.mpr fun x hx => by simpa using fun hc => h1 x hx x hc rfl,
      filter_eq_self.mpr fun x hx => by simpa using hx,
      filter_eq_nil_iff.mpr fun x hx => by
        simpa using fun hc => h2 x (mem_append_right _ hc) x hx rfl]
    simp
  · have h1 : nos [(born 1 c.walSize ino).withMap] = [1] := rfl
    rw [h1]
    simp only [mem_singleton]
    rw [filter_eq]
    have := nodup_iff_count_le_one.mp hn 1
    interval_cases h : count 1 (nos l) <;> simp

theorem At.nos_nodup (h : At c P v0 d0 l r d) : (nos l).Nodup := by
  obtain ⟨v, hok, hv, -, -⟩ := h.view
  rw [← hv]
  exact (pairwise_map.mpr hok.walNo_lt).imp fun hlt => hlt.ne

namespace Writer

def Synced (w : Writer) : Prop := w.dev.disk.small.metaFile = w.metadata

def purgedTo (w : Writer) (lastLog : Option Bytes) : Metadata :=
  { w.metadata with lastPurgedLogId := lastLog.or w.metadata.lastPurgedLogId }

omit [Crc] in
theorem wp_metadataWrite {Q : Unit → Writer → Prop} {E : Stop → Writer → Prop} :
    wp metadataWrite Q E w ↔
      if w.dev.fault w.dev.calls then E (.err (.io .other)) { w with dev := w.dev.tick }
      else Q () { w with
        dev := w.dev.tick.emit (.small { w.dev.disk.small with metaFile := w.metadata }) } := by
  rw [metadataWrite, wp_bind, wp_get, wp_zoom, Dev.wp_sys]

variable {lastLog : Option Bytes}

theorem persistPurged_spec (h : w.Stands c P v0 d0 l r) (hP : ∀ m, P (.event (.small m))) :
    wp (persistPurged lastLog)
      (fun _ w' => w'.Stands c P v0 d0 l r ∧ w'.metadata = w.purgedTo lastLog ∧
        (lastLog.isSome ∨ w.Synced → w'.Synced))
      (fun e w' => Fails c P v0 d0 X e w'.dev) w := by
  rw [persistPurged, wp_ite]
  cases lastLog with
  | none =>
    simp only [isSome_none, Bool.false_eq_true, if_false, wp_pure]
    exact ⟨h, rfl, fun hs => hs.resolve_left (by simp)⟩
  | some b =>
    simp only [isSome_some, if_true, wp_bind, wp_modify, wp_metadataWrite]
    split_ifs with hf
    · exact h.pos.fails hf
    · exact ⟨h.move rfl rfl rfl (h.pos.tick.small (hP _)), rfl, fun _ => rfl⟩

structure Removed (c : Cfg) (P : Label → Prop) (v0 : View) (d0 : WalDev) (w : Writer)
    (lastLog : Option Bytes) (l' : List Slot) (r : ℕ × ℕ) (L : List Entry) (w' : Writer) :
    Prop where
  stands : w'.Stands c P v0 d0 l' r
  recs : l'.flatMap recs = L
  metadata : w'.metadata = w.purgedTo lastLog
  synced : w.Synced → w'.Synced

structure Reverted (c : Cfg) (P : Label → Prop) (v0 : View) (d0 : WalDev) (w : Writer)
    (X : Stop → Prop) (e : Error) (w' : Writer) : Prop where
  fails : Fails c P v0 d0 X (.err e) w'.dev
  metadata : w'.metadata = w.metadata
  synced : (∀ i j, d0.fault i = true → d0.fault j = true → i = j) → w.Synced → w'.Synced

theorem revertPurged_spec {prev : Option Bytes} {e : Stop} (h : Fails c P v0 d0 X e w.dev)
    (hX : ¬ X e) (hP : ∀ m, P (.event (.small m)))
    (hprev : lastLog = none → w.metadata.lastPurgedLogId = prev) {E : Stop → Writer → Prop} :
    wp (revertPurged lastLog prev)
      (fun _ w' => Fails c P v0 d0 X e w'.dev ∧
        w'.metadata = { w.metadata with lastPurgedLogId := prev } ∧
        ((∀ i j, d0.fault i = true → d0.fault j = true → i = j) → w.Synced → w'.Synced)) E w := by
  obtain ⟨⟨v, ht⟩, hstop⟩ := h
  obtain ⟨i, hi, hfi⟩ := hstop.resolve_left hX
  rw [revertPurged, wp_ite]
  cases lastLog with
  | none =>
    simp only [isSome_none, Bool.false_eq_true, if_false, wp_pure]
    exact ⟨⟨⟨v, ht⟩, hstop⟩, by rw [← hprev rfl], fun _ hs => hs⟩
  | some b =>
    simp only [isSome_some, if_true, wp_bind, wp_modify, wp_attempt,
      wp_metadataWrite, wp_pure]
    have hi' : ∀ d : WalDev, d.calls = w.dev.calls + 1 → i < d.calls := fun d hd => by omega
    split_ifs with hf
    · refine ⟨⟨⟨v, ht.tick⟩, .inr ⟨i, hi' _ rfl, hfi⟩⟩, trivial, fun hone => ?_⟩
      rw [ht.fault] at hf
      exact absurd (hone i _ hfi hf) (by omega)
    · exact ⟨⟨⟨_, ht.tick.event (.small v _) (hP _)⟩, .inr ⟨i, hi' _ rfl, hfi⟩⟩, trivial,
        fun _ _ => rfl⟩

/-- What `shift_delete_logs` does to the files `ss ++ [a]`, also when the flush has changed the last
one beside its records. -/
def Shifts (c : Cfg) (P : Label → Prop) (X : Stop → Prop) (ss : List Slot) (a : Slot) (f u : ℕ)
    (L : List Entry) (K : List Slot → Prop) : Prop :=
  ∀ v b s d, b.file = a.file → b.recs = a.recs → At c P v d (ss ++ [b]) (f, u) d →
    s.files = (ss ++ [b]).map file → wp (shiftDeleteLogs f u c.walSize)
      (fun _ t => ∃ l', Left c (ss ++ [b]) l' L t.1 ∧ t.1.active = some (l'.length - 1) ∧
        At c P v d l' (f, u) t.2 ∧ K l')
      (fun e t => Fails c P v d X e t.2) (s, d)

/-- **`Action::Remove`**, given what `shift_delete_logs` does. -/
theorem remove_spec {f u : ℕ} {L : List Entry} {K : List Slot → Prop}
    (h : w.Stands c P v0 d0 (ss ++ [a]) r) (hP : P' ≤ P)
    (hP1 : Label.Plain ≤ P') (hP2 : Label.Beside ≤ P)
    (hP3 : ∀ m, ¬ P' (.event (.small m))) (hX : ∀ e, ¬ X (.err e))
    (hm : a.file.mmapMut.isSome ∨ ∀ p, X (.panic p))
    (hshift : Shifts c P' X ss a f u L K) : wp (remove c f u lastLog)
      (fun reply w' =>
        (reply = ⟨.ok (), none⟩ ∧
          ∃ l', Removed c P v0 d0 w lastLog l' (f, u) L w' ∧ K l') ∨
        ∃ e, reply = ⟨.error e, none⟩ ∧ Reverted c P v0 d0 w X e w')
      (fun e w' => Fails c P v0 d0 X e w'.dev) w := by
  rw [remove, wp_bind, wp_note]
  have hst1 : Stands c P v0 d0 { w with dev := w.dev.emit (.note (.remove f u)) } (ss ++ [a])
      (f, u) :=
    h.move rfl rfl rfl (h.pos.note (hP2 (.event (.note (.remove f u))) trivial) fun _ _ => trivial)
  obtain ⟨v1, ht1, hv1, hp1, hr1, hhere1⟩ := hst1.here
  rw [wp_bind, wp_reported]
  refine wp_mono (flushBlocking_spec (hhere1 Label.Plain).pos le_rfl hst1.shows hm) ?_ ?_
  swap
  · -- the flush failed before anything was changed
    rintro e w2 ⟨he, hmeta⟩
    have he' := he.rebase ht1 (hP1.trans hP)
    cases e with
    | err e =>
      obtain ⟨⟨v2, ht2⟩, -⟩ := he
      have hsmall := ht2.small (fun m hc => hc) ht1.disk
      refine .inr ⟨e, rfl, he', hmeta, fun _ hs => ?_⟩
      rw [Synced, hsmall, hmeta]
      exact hs
    | panic | diverge => exact he'
  rintro - w2 ⟨d, b, rfl, h2, hb⟩
  have hfile : b.file = a.file := by rcases hb with rfl | ⟨rfl, -⟩ <;> rfl
  have hbrecs : b.recs = a.recs := by rcases hb with rfl | ⟨rfl, -⟩ <;> rfl
  have hsmall2 : d.disk.small = w.dev.disk.small := by
    obtain ⟨v2, ht2, -⟩ := h2
    exact ht2.small (fun m hc => hc) ht1.disk
  have hst2 : Stands c P v0 d0 { w with dev := d, isDirty := false } (ss ++ [b]) (f, u) :=
    hst1.move rfl rfl (by simp [hfile]) (.trans ht1 (h2.mono (hP1.trans hP)))
  simp only
  rw [wp_bind, wp_get, wp_bind]
  refine wp_imp (persistPurged_spec hst2 fun m => hP2 (.event (.small m)) trivial) ?_
  rintro - w3 ⟨hst3, hmeta3, hsync3⟩
  have hsync : w.Synced → w3.Synced := fun hs => hsync3 (.inr (by
    rw [Synced, ← hs]
    exact congrArg Small.metaFile hsmall2))
  obtain ⟨v3, ht3, hv3, hp3, hr3, hhere3⟩ := hst3.here
  rw [wp_bind, wp_reported, wp_onWal]
  refine wp_mono (hshift v3 b w3.wal w3.dev hfile hbrecs (hhere3 P').pos hst3.shows.files) ?_ ?_
  · rintro - ⟨t, d4⟩ ⟨l', hleft, hact, h4, hmap⟩
    simp only at hleft hact h4 ⊢
    have hsmall4 : d4.disk.small = w3.dev.disk.small := by
      obtain ⟨v4, ht4, -⟩ := h4
      exact ht4.small hP3 ht3.disk
    rw [wp_bind]
    refine wp_imp (publishFiles_spec (w := { w3 with wal := t, dev := d4 })
      (.trans ht3 (h4.mono hP))
      (fun fs => hP2 (.event (.note (.publish fs))) trivial) hleft.files hact hleft.ne_nil
      hst3.shows.published (hleft.shrunk.filter_prefix hst3.pos.nos_nodup)) ?_
    rintro - w5 ⟨hst5, hmeta5, hdisk5⟩
    refine .inl ⟨rfl, l', ⟨hst5, hleft.recs, hmeta5.trans hmeta3, fun hs => ?_⟩, hmap⟩
    rw [Synced, hdisk5, hmeta5]
    exact (congrArg Small.metaFile hsmall4).trans (hsync hs)
  · rintro e ⟨t, d4⟩ he
    have he' := he.rebase ht3 hP
    cases e with
    | panic | diverge => exact he'
    | err e =>
      simp only at he ⊢
      have hsmall4 : d4.disk.small = w3.dev.disk.small := by
        obtain ⟨⟨v4, ht4⟩, -⟩ := he
        exact ht4.small hP3 ht3.disk
      rw [wp_bind]
      refine wp_imp (revertPurged_spec (w := { w3 with wal := t, dev := d4 }) he' (hX e)
        (fun m => hP2 (.event (.small m)) trivial) fun hn => ?_) ?_
      · rw [hmeta3, purgedTo, hn]
        rfl
      · rintro - w5 ⟨he5, hmeta5, hsync5⟩
        refine .inr ⟨e, rfl, he5, ?_, fun hone hs => hsync5 hone ?_⟩
        · rw [hmeta5, hmeta3]
          rfl
        · exact (congrArg Small.metaFile hsmall4).trans (hsync hs)

end Writer

end

end Hiqlite.Wal
