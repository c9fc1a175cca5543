import Hiqlite.Wal.Grow
import Hiqlite.Wal.Recover

/-!
# W21 — one process lifetime after the other

A log store is shut down, or its process is killed, and the next process starts on the files that
are left behind.

* **`shutdown_spec`**: a graceful shutdown leaves the header of every file on disk;
* **`start_spec`**: the next start stands at the files as they are read again.
-/

namespace Hiqlite.Wal

open List Option Exec Region WalFile

variable [Crc]

section

variable {c : Cfg} {P : Label → Prop} {v0 : View} {d0 d : WalDev} {r : ℕ × ℕ} {X : Stop → Prop}
  {ss ts l : List Slot} {a : Slot} {w : Writer}

/-! ## Shutdown -/

def Slot.dropped (a : Slot) : Slot := if a.file.mmapMut.isSome then a.flushed else a

omit [Crc] in
@[simp] theorem Slot.dropped_file (a : Slot) : a.dropped.file = a.file := by
  unfold dropped
  split <;> rfl

omit [Crc] in
@[simp] theorem Slot.dropped_recs (a : Slot) : a.dropped.recs = a.recs := by
  unfold dropped
  split <;> rfl

theorem At.drop (h : At c P v0 d0 (ss ++ a :: ts) r d) (hP : Label.Plain ≤ P) :
    wp drop (fun _ s => At c P v0 d0 (ss ++ a.dropped :: ts) r s.2)
      (fun e s => Fails c P v0 d0 X e s.2) (a.file, d) := by
  by_cases hm : a.file.mmapMut.isSome
  · have ha := h.slot (a := a) (by simp)
    have hlen := ha.offsetLogs_le_len
    rw [wp_drop_some (h.mmapMut (by simp) hm) hlen, Slot.dropped, if_pos hm]
    obtain ⟨v, ht, hv, hp, hr⟩ := h
    have t1 := ht.event (.header v ss a ts hv (.inl hp)) (hP _ trivial)
    simp only
    split_ifs with hf
    · exact At.fails ⟨_, t1, rfl, rfl, hr⟩ hf
    · have t2 := t1.tick.event (.flush _ ss { a with hdr := some a.file.toHeader, pre := [] } ts rfl
        rfl rfl) (hP _ trivial)
      exact ⟨_, t2, rfl, rfl, hr⟩
  · rw [wp_drop_none (by simpa using hm), Slot.dropped, if_neg hm]
    exact h

namespace Writer

theorem dropFiles_spec (h : At c P v0 d0 (ss ++ ts) r w.dev)
    (hP : Label.Plain ≤ P) : wp (dropFiles (ts.map Slot.file))
      (fun _ w' => At c P v0 d0 (ss ++ ts.map Slot.dropped) r w'.dev)
      (fun e w' => Fails c P v0 d0 X e w'.dev) w := by
  induction ts generalizing ss w with
  | nil => exact h
  | cons a ts ih =>
    rw [map_cons, dropFiles, wp_bind, wp_onWal, WalFileSet.wp_withFile]
    refine wp_imp (h.drop hP) ?_
    rintro - ⟨f, d1⟩ h1
    have h2 : At c P v0 d0 ((ss ++ [a.dropped]) ++ ts) r d1 := by simpa using h1
    simpa using ih (w := { w with dev := d1 }) h2

theorem shutdown_spec (h : w.Stands c P v0 d0 l r)
    (hP : Label.Plain ≤ P) (hP' : ∀ m, P (.event (.small m)))
    (hm : LastMapped l ∨ ∀ p, X (.panic p)) (hb : Backed l) : wp shutdown
      (fun _ w' => w'.dev.disk.small.lockFile = false ∧
        ∃ l', At c P v0 d0 l' r w'.dev ∧ l'.map Slot.file = l.map Slot.file ∧
          l'.map Slot.recs = l.map Slot.recs ∧ ∀ a ∈ l', a.hdr = some a.file.toHeader)
      (fun e w' => Fails c P v0 d0 X e w'.dev) w := by
  obtain ⟨ss, a, rfl⟩ := h.shows.split
  rw [lastMapped_concat] at hm
  rw [backed_concat] at hb
  rw [shutdown, wp_bind]
  refine wp_mono (flushActive_spec h.pos hP h.shows hm) ?_ fun _ _ he => he.1
  rintro - w1 ⟨d1, rfl, h1⟩
  rw [wp_bind, wp_metadataWrite]
  split_ifs with hf1
  · exact h1.fails hf1
  have h2 := h1.tick.small (m := { d1.disk.small with metaFile := w.metadata }) (hP' _)
  rw [wp_bind, wp_get, wp_bind, wp_zoom, Dev.wp_sys]
  split_ifs with hf2
  · exact h2.fails hf2
  have h3 := h2.tick.small (m := { d1.disk.small with metaFile := w.metadata, lockFile := false })
    (hP' _)
  obtain ⟨v3, ht3, hv3, hp3, hr3⟩ := h3
  -- the drop does not touch the lock file
  have hfiles : w.wal.files = (ss ++ [a.flushed]).map Slot.file := by
    rw [h.shows.files]
    simp [Slot.flushed]
  simp only [hfiles]
  have hat3 : At c Label.Plain v3 _ ([] ++ (ss ++ [a.flushed])) r _ :=
    ⟨v3, ht3.here, hv3, hp3, hr3⟩
  refine wp_mono (dropFiles_spec (X := X) (w := { w with dev := _ }) hat3 le_rfl) ?_
    fun _ _ he => he.rebase ht3 hP
  rintro - w4 h4
  rw [nil_append] at h4
  refine ⟨?_, _, .trans ht3 (h4.mono hP), by simp [Slot.flushed], by simp [Slot.flushed],
    fun x hx => ?_⟩
  · obtain ⟨v4, ht4, -⟩ := h4
    rw [ht4.small (fun _ hc => hc) ht3.disk]
    rfl
  · obtain ⟨y, hy, rfl⟩ := mem_map.mp hx
    rw [Slot.dropped]
    split_ifs with hmy
    · rfl
    rcases mem_append.mp hy with hy | hy
    · exact hb y hy (by simpa using hmy)
    · rw [mem_singleton.mp hy]
      rfl

end Writer

end

/-! ## Files that are read again -/

/-- The file as it is read again with the header `h` of the records `recs`. -/
def Slot.reread (a : Slot) (h : Header) (recs : List Entry) : Slot where
  file := ⟨h, a.file.walNo, a.file.lenMax, none, none⟩
  ino := a.ino
  recs := recs
  safe := recs.length
  hdr := some h
  pre := []

/-- `b` is the file `a` as it is read again. -/
def Slot.Rereads (d : WalDisk) (a b : Slot) : Prop :=
  ∃ h recs, a.hdr = some h ∧ Body (a.bytes d) a.file.lenMax h recs ∧ b = a.reread h recs

structure Slot.Found (a : Slot) : Prop where
  map : a.file.mmapMut = none
  hdr : a.hdr = some a.file.toHeader
  pre : a.pre = []
  safe : a.safe = a.recs.length

section

variable {v : View} {d : WalDisk} {a b : Slot} {l l' : List Slot}

theorem Slot.Rereads.found (h : a.Rereads d b) : b.Found := by
  obtain ⟨x, recs, -, -, rfl⟩ := h
  exact ⟨rfl, rfl, rfl, rfl⟩

omit [Crc] in
theorem exists_forall₂ {α β : Type} {R : α → β → Prop} {l : List α} (h : ∀ a ∈ l, ∃ b, R a b) :
    ∃ l', Forall₂ R l l' := by
  induction l with
  | nil => exact ⟨[], .nil⟩
  | cons a l ih =>
    obtain ⟨b, hb⟩ := h a (by simp)
    obtain ⟨l', hl'⟩ := ih fun x hx => h x (by simp [hx])
    exact ⟨b :: l', .cons hb hl'⟩

theorem Slot.Ok.reread (hok : a.Ok d) (h : a.Rereads d b) : b.Ok d := by
  obtain ⟨x, recs, hx, hb, rfl⟩ := h
  refine ⟨hb, hok.len, hok.min_le, hok.lt_max, hok.no_lt, by simp [reread], rfl, le_rfl, ?_⟩
  rintro y hy
  cases hy
  exact hok.hdr x hx

theorem Slot.Sealed.reread {a' b' : Slot} (hs : a.Sealed d) (hn : a.Next b) (hok : a.Ok d)
    (ha : a.Rereads d a') (hb : b.Rereads d b') : a'.Sealed d ∧ a'.Next b' := by
  have hok' := hok.reread ha
  obtain ⟨-, -, x, hx, -, hid, -, s, hstart, -⟩ := hs
  obtain ⟨y, recs, hy, hbody, rfl⟩ := ha
  obtain ⟨z, recs', hz, hbody', rfl⟩ := hb
  obtain rfl : x = y := some.inj (hx.symm.trans hy)
  have hne : recs ≠ [] := by
    rintro rfl
    have := (body_nil.mp hbody).start
    rw [hstart] at this
    cases this
  refine ⟨hok'.sealed rfl rfl hne rfl, hn.no, ?_, ?_⟩
  · rcases hn.hdr z hz with hz' | rfl
    · exact .inl (hz'.trans (by rw [← hid]; rfl))
    · refine .inr ⟨?_, rfl⟩
      rcases hbody' with ⟨hnil, -⟩ | ⟨-, t, ht⟩
      · exact hnil
      · exact absurd ht.start (by simp [Header.unused])
  · rintro g hg
    cases hg
    exact (hn.hdr z hz).imp_left fun h => h.trans (by rw [← hid]; rfl)

theorem View.Ok.reread (hv : v.Ok) (hl : Forall₂ (Slot.Rereads v.disk) v.slots l)
    (r : ℕ × ℕ) : View.Ok ⟨l, .idle, r, v.disk⟩ := by
  obtain ⟨slots, phase, request, disk⟩ := v
  have hnames : ∀ {slots l : List Slot}, Forall₂ (Slot.Rereads disk) slots l →
      l.map (fun a => (a.file.walNo, a.ino)) = slots.map fun a => (a.file.walNo, a.ino) := by
    intro slots l hl
    induction hl with
    | nil => rfl
    | cons h _ ih =>
      obtain ⟨x, recs, -, -, rfl⟩ := h
      rw [map_cons, map_cons, ih]
      rfl
  have hinos : l.map Slot.ino = slots.map Slot.ino := by
    have := congrArg (List.map Prod.snd) (hnames hl)
    simpa only [List.map_map, Function.comp_def] using this
  have hmem : ∀ b ∈ l, ∃ a ∈ slots, a.Rereads disk b := fun b hb => by
    obtain ⟨i, hi, rfl⟩ := mem_iff_getElem.mp hb
    have hi' : i < slots.length := by rw [hl.length_eq]; exact hi
    exact ⟨slots[i], getElem_mem _, hl.get hi' hi⟩
  have hok : ∀ b ∈ l, b.Ok disk := fun b hb => by
    obtain ⟨a, ha, hab⟩ := hmem b hb
    exact (hv.slots a ha).reread hab
  refine ⟨?_, fun b hb => ?_, ?_, hok, ?_, fun ss b hb => ?_, by simp⟩
  · exact hv.dir.trans (hnames hl).symm
  · obtain ⟨a, ha, x, recs, -, -, rfl⟩ := hmem b hb
    exact hv.lt a ha
  · simp only [hinos]
    exact hv.nodup
  · have hc := hv.chain
    have hs := hv.slots
    simp only at hc hs hl ⊢
    clear hv hinos hmem hok
    induction hl with
    | nil => exact .nil
    | @cons a a' slots l ha hl ih =>
      cases hl with
      | nil => exact .singleton _
      | @cons b b' slots l hb hl =>
        obtain ⟨⟨hseal, hnext⟩, hc'⟩ := isChain_cons_cons.mp hc
        exact isChain_cons_cons.mpr ⟨hseal.reread hnext (hs a (by simp)) ha hb,
          ih hc' fun x hx => hs x (by simp [hx])⟩
  · have hbl : b ∈ l := by rw [show l = ss ++ [b] from hb]; simp
    obtain ⟨a, ha, hab⟩ := hmem b hbl
    exact ⟨(hok b hbl).rooted hab.found.hdr hab.found.pre, by rw [hab.found.hdr]; rfl⟩

end

/-! ## The next start -/

/-- What the deep check makes of the last file. -/
def Slot.adopted (d : WalDisk) (a : Slot) : Slot :=
  { a with
    file := a.checked d a.file.toHeader
    recs := a.recs ++ strays (a.bytes d) a.file.lenMax a.file.toHeader
    safe := (a.recs ++ strays (a.bytes d) a.file.lenMax a.file.toHeader).length
    hdr := some (a.checked d a.file.toHeader).toHeader
    pre := [] }

/-- The header that the deep check makes describes the records. -/
def Slot.Adoptable (d : WalDisk) (a : Slot) : Prop :=
  Body (a.bytes d) a.file.lenMax (a.adopted d).file.toHeader (a.adopted d).recs

theorem Slot.adopted_idFrom (d : WalDisk) (a : Slot) :
    (a.adopted d).file.idFrom = a.file.idFrom := by
  simp only [adopted, checked, adopt]
  split <;> rfl

section

variable {c : Cfg} {P : Label → Prop} {v0 v : View} {d0 d : WalDev} {r : ℕ × ℕ} {X : Stop → Prop}
  {ss l : List Slot} {a z : Slot}

omit [Crc] in
theorem Slot.Found.found (h : a.Found) (hm : a.file.mmap = none) : a.found = some a.file := by
  have hm' := h.map
  rw [Slot.found, h.hdr, map_some]
  obtain ⟨⟨h', no, len, m, m'⟩, ino, recs, safe, hdr, pre⟩ := a
  simp only at hm hm'
  rw [hm, hm']

theorem View.Ok.filterMap_found_eq (hv : v.Ok) (hf : ∀ a ∈ v.slots, a.Found) :
    v.slots.filterMap Slot.found = v.slots.map Slot.file := by
  rw [← filterMap_eq_map]
  exact filterMap_congr fun a ha => (hf a ha).found (hv.slots a ha).mmap

theorem Slot.adoptable_of_null {dk : WalDisk} (hn : a.recs = []) (hv : Vacant a.file.toHeader)
    (hz : AgreeOn (offsetLogs + 1) (offsetLogs + 1 + 8) (a.bytes dk) zero) :
    a.Adoptable dk := by
  have hnil : strays (a.bytes dk) a.file.lenMax a.file.toHeader = [] :=
    hv.strays_eq_nil.mpr (orphanAt_of_null hz)
  rw [Adoptable, adopted, checked, hnil, hn, append_nil]
  exact body_nil.mpr hv

/-- **`WalFileSet::read`** finds the files of a view, or creates the first one. -/
theorem WalFileSet.read_spec (h : At c P v0 d0 l r d) (hP : Label.Plain ≤ P)
    (hf : ∀ a ∈ l, a.Found) : wp (read c.walSize)
      (fun set d' => ∃ ss z, At c P v0 d0 (ss ++ [z]) r d' ∧
        set = ⟨some ss.length, (ss ++ [z]).map Slot.file⟩ ∧
        (∀ a ∈ ss ++ [z], a.Found) ∧ (l ≠ [] → l = ss ++ [z] ∧ d' = d) ∧
        (l = [] → ss = [] ∧ z.Adoptable d'.disk))
      (fun e d' => Fails c P v0 d0 X e d') d := by
  obtain ⟨v, hok, hvl, -, hd⟩ := h.view
  subst hvl
  have hread : readDir d.disk = v.slots.map Slot.file := by
    rw [← hd, hok.readDir, hok.filterMap_found_eq hf]
  rcases eq_nil_or_concat' v.slots with hnil | ⟨ss, z, hz⟩
  · rw [hnil] at h hread ⊢
    rw [read, wp_bind, wp_get]
    simp only [hread, map_nil, h.new_eq (show 1 < 10 ^ 16 by norm_num) d.disk.next, lift_ok]
    rw [wp_bind, wp_pure, wp_bind, wp_zoom]
    have hnone : d.disk.lookup 1 = none := h.lookup_none (by simp)
    -- the new file holds null bytes behind its header
    have hbytes : wp createFile
        (fun _ s => AgreeOn (offsetLogs + 1) (offsetLogs + 1 + 8)
          (s.2.disk.inode d.disk.next).bytes zero) (fun _ _ => True)
        ((Slot.fresh 1 c.walSize d.disk.next).file, d) := by
      rw [wp_createFile hnone]
      split_ifs
      simp only
      split_ifs
      simp only [Dev.tick_disk, Dev.emit_disk, apply_write_bytes_self, apply_create_inode_next]
      refine (agreeOn_write (.inr ?_)).trans (AgreeOn.refl _ _ _)
      rw [length_buildHeader, offsetLogs]
      omega
    refine wp_mono (wp_and (h.createFile (X := X) hP (by norm_num)
      (fun _ => rfl) (by simp)) hbytes) ?_ fun _ _ he => he.1
    rintro - ⟨f, d'⟩ ⟨h', hnull⟩
    rw [wp_pure]
    refine ⟨[], Slot.born 1 c.walSize d.disk.next, h', rfl, ?_, fun hc => absurd rfl hc,
      fun _ => ⟨rfl, Slot.adoptable_of_null rfl
        ⟨rfl, rfl, rfl, by simp [Slot.born, Slot.fresh, Header.unused]⟩ hnull⟩⟩
    simp only [nil_append, mem_singleton, forall_eq]
    exact ⟨rfl, rfl, rfl, rfl⟩
  · rw [hz] at h hread hf ⊢
    rw [map_append, map_singleton] at hread
    rw [wp_read hread]
    exact ⟨ss, z, h, by simp, hf, fun _ => ⟨rfl, rfl⟩, by simp⟩

theorem Slot.Adoptable.strays_of_unused {dk : WalDisk} (h : a.Adoptable dk) (hu : a.Unused) :
    strays (a.bytes dk) a.file.lenMax a.file.toHeader = [] := by
  rw [strays_eq_nil]
  by_contra hne
  obtain ⟨e, he⟩ := ne_none_iff_exists'.mp hne
  obtain ⟨-, -, -, hpos, -⟩ := orphanAt_eq_some he
  have hrecs : (a.adopted dk).recs = strays (a.bytes dk) a.file.lenMax a.file.toHeader := by
    rw [adopted, hu.1, nil_append]
  have hnum := Body.num h
  rw [adopted_idFrom, hrecs, strays, orphans, he, hu.2] at hnum
  have : e.1 = 0 := (numFrom_cons.mp hnum).1
  omega

theorem View.Ok.adopt (hv : v.Ok) (hs : v.slots = ss ++ [z]) (hf : z.Found)
    (ha : z.Adoptable v.disk) {d' : WalDev} (hd : d.disk = v.disk) (hre : Rehead z.ino d d')
    (hh : HdrAt (d'.disk.inode z.ino).bytes (z.adopted v.disk).file.toHeader) :
    View.Ok ⟨ss ++ [z.adopted v.disk], .idle, v.request, d'.disk⟩ := by
  have hok := hv.slots z (by simp [hs])
  have hbody : Body ((z.adopted v.disk).bytes d'.disk) z.file.lenMax
      (z.adopted v.disk).file.toHeader (z.adopted v.disk).recs := by
    refine Body.congr ha ?_
    have := hre.bytes z.file.lenMax
    rwa [hd] at this
  have hfrom := Slot.adopted_idFrom v.disk z
  have hno : (z.adopted v.disk).file.walNo = z.file.walNo := adopt_walNo ..
  have hok' : (z.adopted v.disk).Ok d'.disk := by
    have hlen : (z.adopted v.disk).file.lenMax = z.file.lenMax := adopt_lenMax ..
    refine ⟨by rw [hlen]; exact hbody, ?_, by rw [hlen]; exact hok.min_le,
      by rw [hlen]; exact hok.lt_max, ?_, ?_, ?_, le_rfl, ?_⟩
    · rw [hlen, ← hok.len, ← hd]
      exact hre.len
    · rw [hno]
      exact hok.no_lt
    · intro i hi
      simp only [Slot.adopted, Slot.checked, WalFile.adopt] at hi
      split at hi <;> exact (some.inj hi).symm
    · simp only [Slot.adopted, Slot.checked, WalFile.adopt]
      split <;> rfl
    · rintro y hy
      cases hy
      refine ⟨hh, ?_⟩
      rw [hlen]
      exact hbody.shaped hok.lenMax_lt
  have hsame : z.Unused → (z.adopted v.disk).Unused := fun hu => by
    have hos := ha.strays_of_unused hu
    exact ⟨by rw [Slot.adopted, hos, hu.1]; rfl, by rw [Slot.adopted, Slot.checked, hos]; exact hu.2⟩
  have hun : z.file.toHeader = Header.unused → z.Unused := fun hu => by
    refine ⟨?_, hu⟩
    rcases hok.body with ⟨hnil, -⟩ | ⟨-, s, hs⟩
    · exact hnil
    · exact absurd hs.start (by rw [hu]; simp [Header.unused])
  refine hv.update hs (by rw [hre.dir, hd]) (by rw [hre.next, hd])
    (fun i hi => by rw [hre.other i hi, hd]) rfl hno hok' (fun x _ hn => ⟨hno.trans hn.no, ?_, ?_⟩)
    (by simp) (fun _ => ⟨hok'.rooted rfl rfl, rfl⟩) (by simp)
  · rw [hfrom]
    exact hn.id.imp_right hsame
  · rintro y hy
    cases hy
    exact (hn.hdr _ hf.hdr).imp hfrom.trans fun hu => (hsame (hun hu)).2

omit [Crc] in
theorem Slot.opened_of_found (hm : a.file.mmap = none) :
    { a.file with mmapMut := some a.ino } = a.opened a.file.toHeader := by
  rw [Slot.opened, ← hm]

theorem WalFileSet.check_spec {heal deep : Bool} (h : At c P v0 d0 (ss ++ [z]) r d)
    (hrel : d0.Reliable) (hf : ∀ a ∈ ss ++ [z], a.Found) (ha : deep = true → z.Adoptable d.disk) :
    wp (exec ⟨some ss.length, (ss ++ [z]).map Slot.file⟩ (checkIntegrity heal deep))
      (fun set d' => ∃ (v : View) (y : Slot), v.Ok ∧ v.slots = ss ++ [y] ∧ v.phase = .idle ∧
        d'.disk = v.disk ∧
        d'.Reliable ∧ set = ⟨some ss.length, (ss ++ [y]).map Slot.file⟩ ∧ (deep = false → y = z))
      (fun _ _ => False) d := by
  have hd : d.Reliable := by
    obtain ⟨v, ht, -⟩ := h
    exact ht.reliable hrel
  obtain ⟨v, hok, hvl, hidle, hdisk⟩ := h.view
  rw [← hvl] at hf
  have hcheck := hok.checkFiles
  rw [hok.filterMap_found_eq hf, hvl] at hcheck
  rw [wp_exec]
  cases deep with
  | false =>
    rw [wp_checkIntegrity_false hcheck]
    exact ⟨v, z, hok, hvl, hidle, hdisk.symm, hd, rfl, fun _ => rfl⟩
  | true =>
    have hzv : z ∈ v.slots := by simp [hvl]
    have hz := hf z hzv
    have hzok := hok.slots z hzv
    have hlook := hok.lookup hzv
    rw [hdisk] at hlook hzok
    have hz' := Slot.opened_of_found hzok.mmap
    rw [map_append, map_singleton] at hcheck ⊢
    rw [← length_map (f := Slot.file), wp_checkIntegrity_true hcheck hz.map hlook hd, hz']
    refine wp_imp (checkRepair_body (f := z.opened z.file.toHeader) (d := d.tick)
      (.of_mut rfl rfl hzok.len) hzok.lt_max hzok.body) ?_
    rintro - ⟨g, d'⟩ ⟨hg, hre, hh⟩
    have hre' := (Rehead.tick z.ino d).trans hre
    have hgf : g = (z.adopted v.disk).file := by
      rw [show g = _ from hg, hdisk]
      rfl
    have hhdr : HdrAt (d'.disk.inode z.ino).bytes (z.adopted v.disk).file.toHeader := by
      rw [← hgf]
      rcases hh with hh | hh
      · cases hh
        exact (hzok.hdr _ hz.hdr).1
      · exact hh
    refine ⟨_, z.adopted v.disk, hok.adopt hvl hz (by rw [hdisk]; exact ha rfl) hdisk.symm hre' hhdr,
      rfl, rfl, rfl, ?_, by rw [hgf]; simp, by simp⟩
    rw [Dev.Reliable, hre'.fault]
    exact hd

variable [Codec]

theorem repairLastPurged_spec {m : Metadata} {set : WalFileSet} (h : At c P v0 d0 l r d)
    (hP : ∀ m, P (.event (.small m))) :
    wp (repairLastPurged m set) (fun _ d' => At c P v0 d0 l r d') (fun _ _ => True) d := by
  unfold repairLastPurged
  split
  · rw [wp_ite]
    split_ifs
    · rw [wp_bind, Dev.wp_ask]
      split_ifs
      rw [wp_bind, wp_get, wp_bind]
      refine wp_unwrap (fun ino _ => ?_) fun _ => trivial
      rw [wp_bind]
      refine wp_lift (fun res _ => ?_) fun _ _ => trivial
      simp only [wp_bind]
      refine wp_unwrap (fun log _ => ?_) fun _ => trivial
      rw [wp_bind, Dev.wp_sys]
      split_ifs
      exact h.tick.tick.small (hP _)
    · exact h
  · exact h

/-- The writer stands at the files `l`, on a device that does not fail. -/
def Writer.Up (c : Cfg) (w : Writer) (l : List Slot) : Prop :=
  ∃ (v0 : View) (d0 : WalDev) (r : ℕ × ℕ), d0.Reliable ∧ w.Stands c (fun _ => True) v0 d0 l r

/-- **The next start** stands at the files it finds. Without a lock file their records stay as they
are. -/
theorem start_spec (hv : v.Ok) (hidle : v.phase = .idle) (hf : ∀ a ∈ v.slots, a.Found)
    (hd : d.disk = v.disk) (hrel : d.Reliable) (hmin : minWalSize ≤ c.walSize)
    (ha : d.disk.small.lockFile = true → ∀ a ∈ v.slots.getLast?, a.Adoptable v.disk) : wp (start c)
      (fun w _ => ∃ ss y, w.Up c (ss ++ [y]) ∧ y.file.mmapMut.isSome ∧ (∀ a ∈ ss, a.Found) ∧
        (v.slots ≠ [] → d.disk.small.lockFile = false →
          ∃ z, v.slots = ss ++ [z] ∧ y = z.withMap)) (fun _ _ => True) d := by
  have h0 : At c (fun _ => True) v d v.slots v.request d := ⟨v, .refl hd hv hmin, rfl, hidle, rfl⟩
  rw [start, wp_bind, wp_get, wp_bind, Dev.wp_sys]
  split_ifs
  have h1 := h0.tick.small (m := ⟨d.disk.small.metaFile, true⟩) trivial
  rw [wp_bind]
  refine wp_mono (WalFileSet.read_spec (X := fun _ => True) h1 (fun _ _ => trivial) hf) ?_
    fun _ _ _ => trivial
  rintro set d2 ⟨ss, z, h2, rfl, hf2, hsame, hnew⟩
  rw [wp_bind]
  refine wp_mono (WalFileSet.check_spec h2 hrel hf2 fun hlock => ?_) ?_ fun _ _ _ => trivial
  · by_cases hnil : v.slots = []
    · exact (hnew hnil).2
    · obtain ⟨hs, rfl⟩ := hsame hnil
      have := ha hlock z (by simp [hs])
      rwa [← hd] at this
  rintro set d3 ⟨v3, y, hok3, hs3, hidle3, hd3, hrel3, rfl, hy⟩
  rw [wp_bind]
  have hat3 : At c (fun _ => True) v3 d3 (ss ++ [y]) v3.request d3 :=
    ⟨v3, .refl hd3 hok3 hmin, hs3, hidle3, rfl⟩
  refine wp_mono (repairLastPurged_spec hat3 fun _ => trivial) ?_ fun _ _ _ => trivial
  rintro m d4 h4
  rw [wp_bind, WalFileSet.wp_exec, map_append, map_singleton,
    WalFileSet.wp_onActive (f := y.file) rfl (by simp)]
  refine wp_mono (h4.openMmapMut (X := fun _ => True) fun _ _ => trivial) ?_
    fun _ _ _ => trivial
  rintro - ⟨f, d5⟩ ⟨hf5, h5⟩
  simp only at hf5 h5
  rw [wp_bind, wp_get, wp_pure, hf5]
  have hagree : ∀ fs : List WalFile, List.Forall₂ Agrees (fs.map cloneNoMmap) fs :=
    fun fs => List.forall₂_map_left_iff.mpr (List.forall₂_same.mpr fun _ _ => ⟨rfl, rfl⟩)
  refine ⟨ss, y.withMap, ⟨v3, d3, v3.request, hrel3, ⟨by simp, by simp, by simp, rfl, ?_, ?_⟩,
    ?_, h5⟩, rfl, fun a hx => hf2 a (by simp [hx]), fun hne hlock => ?_⟩
  · simp [WalFileSet.cloneNoMap, nos, cloneNoMmap, Slot.withMap, Function.comp_def]
  · simpa [WalFileSet.cloneNoMap] using hagree (ss.map Slot.file)
  · simp only [WalFileSet.cloneNoMap, map_append, map_singleton]
    exact rel_append (hagree _) (.cons ⟨rfl, rfl⟩ .nil)
  · exact ⟨z, (hsame hne).1, by rw [hy hlock]⟩

end

end Hiqlite.Wal
