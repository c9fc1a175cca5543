import Hiqlite.Wal.Journal

/-!
# W7 — the moves keep the invariant

* `View.Ok.update`: one file changes, the others do not;
* **`Move.ok`**, **`ok_of_path`**;
* `Slot.Becomes`, **`Move.becomes`**: what a move does to a single file.
-/

namespace Hiqlite.Wal

open List Option Region

theorem isChain_update {α : Type} {R S : α → α → Prop} {l1 l2 : List α} {a a' : α}
    (h : (l1 ++ a :: l2).IsChain R) (h1 : ∀ x ∈ l1, ∀ y ∈ l1, R x y → S x y)
    (h2 : ∀ x ∈ l2, ∀ y ∈ l2, R x y → S x y) (hp : ∀ x ∈ l1.getLast?, R x a → S x a')
    (hn : ∀ y ∈ l2.head?, R a y → S a' y) : (l1 ++ a' :: l2).IsChain S := by
  rw [isChain_append, isChain_cons] at h ⊢
  obtain ⟨hl, ⟨hr, hr'⟩, hm⟩ := h
  refine ⟨hl.imp_of_mem_imp fun x y hx hy => h1 x hx y hy,
    ⟨fun y hy => hn y hy (hr y hy), hr'.imp_of_mem_imp fun x y hx hy => h2 x hx y hy⟩, ?_⟩
  intro x hx y hy
  cases hy
  exact hp x hx (hm x hx a rfl)

/-! ## Frames -/

theorem Vacant.next {a : Slot} (hv : Vacant a.file.toHeader) : a.next = offsetLogs := by
  rw [Slot.next, hv.stop]
  rfl

variable {x : Header} {c : Cfg} {v v' : View}

theorem Vacant.eq_unused (hv : Vacant x) (h0 : x.idFrom = 0) : x = Header.unused := by
  obtain ⟨h1, h2, h3, -⟩ := hv
  obtain ⟨idFrom, idUntil, dataStart, dataEnd⟩ := x
  simp only at h0 h1 h2 h3
  rw [Header.unused, h1, h2, h3, h0]

variable [Crc]

theorem Holds.next {b : Region} {len s : ℕ} {a : Slot} {recs : List Entry}
    (hh : Holds b len x s recs) (he : x.dataEnd = a.file.dataEnd) (hne : recs ≠ []) :
    a.next = endOf s recs := by
  have := add_le_endOf s hne
  rw [Slot.next, ← he, hh.stop]
  simp only [map_some, getD_some]
  omega

namespace Slot

variable {d d' : WalDisk} {a : Slot}

/-- The disk still holds the records and the header of the file. -/
structure Agree (d d' : WalDisk) (a : Slot) : Prop where
  len : (d'.inode a.ino).len = (d.inode a.ino).len
  bytes : AgreeOn 0 a.next (a.bytes d) (a.bytes d')

omit [Crc] in
theorem Agree.of_inode_eq (h : d'.inode a.ino = d.inode a.ino) : Agree d d' a :=
  ⟨by rw [h], by rw [Slot.bytes, Slot.bytes, h]; exact AgreeOn.refl _ _ _⟩

theorem Ok.offsetLogs_le_next (h : a.Ok d) : offsetLogs ≤ a.next := by
  rcases h.body with ⟨-, hv⟩ | ⟨hne, s, hs⟩
  · exact hv.next.ge
  · rw [hs.next rfl hne]
    exact hs.le_start.trans (le_endOf s _)

/-- The file is long enough for its header. -/
theorem Ok.offsetLogs_le_len (h : a.Ok d) : offsetLogs ≤ (d.inode a.ino).len := by
  have := h.min_le
  rw [minWalSize] at this
  rw [h.len, offsetLogs]
  omega

theorem Ok.lenMax_lt (h : a.Ok d) : a.file.lenMax < 2 ^ 32 := by
  have := h.lt_max
  rw [u32Max] at this
  omega

theorem Ok.mem_bounds (h : a.Ok d) {e : Entry} (he : e ∈ a.recs) :
    a.file.idFrom ≤ e.1 ∧ e.1 ≤ a.file.idUntil := by
  obtain ⟨s, hs⟩ := (body_of_ne_nil (ne_nil_of_mem he)).mp h.body
  have h1 := hs.num.mem_bounds he
  have h2 := hs.ids
  omega

theorem Ok.frame (h : a.Ok d) (hd : Agree d d' a) : a.Ok d' := by
  refine { h with body := ?_, len := hd.len.trans h.len, hdr := fun x hx => ?_ }
  · rcases h.body with ⟨hn, hv⟩ | ⟨hne, s, hs⟩
    · exact .inl ⟨hn, hv⟩
    · refine .inr ⟨hne, s, hs.congr (hd.bytes.mono (Nat.zero_le _) ?_)⟩
      rw [hs.next rfl hne]
      exact Nat.sub_le _ _
  · obtain ⟨h1, h2⟩ := h.hdr x hx
    refine ⟨?_, h2⟩
    rw [HdrAt, ← h1]
    refine (read_congr (hd.bytes.mono le_rfl ?_)).symm
    rw [Nat.zero_add]
    exact h.offsetLogs_le_next

theorem Sealed.frame (h : a.Sealed d) (hd : Agree d d' a) : a.Sealed d' := by
  obtain ⟨hne, hsf, x, hx, hb, hi, he, hs⟩ := h
  have hne' : a.pre ++ a.recs ≠ [] := by simp [hne]
  obtain ⟨s, hh⟩ := (body_of_ne_nil hne').mp hb
  refine ⟨hne, hsf, x, hx, (body_of_ne_nil hne').mpr
    ⟨s, hh.congr (hd.bytes.mono (Nat.zero_le _) ?_)⟩, hi, he, hs⟩
  rw [hh.next he hne']
  exact Nat.sub_le _ _

theorem Rooted.frame (h : a.Rooted d) (ha : a.Ok d) (hd : Agree d d' a) : a.Rooted d' := by
  intro hne
  obtain ⟨x, s, hx, hs, hle, hl, hst, hok⟩ := h hne
  obtain ⟨s', hh⟩ := (body_of_ne_nil hne).mp ha.body
  obtain rfl : s' = endOf s a.pre := by
    have := hh.start
    rw [hst] at this
    exact (some.inj this).symm
  refine ⟨x, s, hx, hs, hle, hl.congr (hd.bytes.mono (Nat.zero_le _) ?_), hst, hok⟩
  rw [endOf_append, hh.next rfl hne]
  exact Nat.sub_le _ _

theorem Sealed.rooted (h : a.Sealed d) : a.Rooted d := by
  obtain ⟨hne, -, x, hx, hb, -, -, s, hs, hst⟩ := h
  intro _
  obtain ⟨s', hh⟩ := (body_of_ne_nil (by simp [hne])).mp hb
  obtain rfl : s = s' := by
    have := hh.start
    rw [hs] at this
    exact some.inj this
  exact ⟨x, s, hx, hs, hh.le_start, hh.laid, hst, fun e he => hh.ok e (by simp [he])⟩

end Slot

namespace View

variable {v : View}

theorem Ok.disk (h : v.Ok) {d' : WalDisk} (r : ℕ × ℕ) (hdir : d'.dir = v.disk.dir)
    (hnext : v.disk.next ≤ d'.next) (hino : ∀ a ∈ v.slots, d'.inode a.ino = v.disk.inode a.ino) :
    View.Ok { v with request := r, disk := d' } where
  dir := hdir.trans h.dir
  lt a ha := (h.lt a ha).trans_le hnext
  nodup := h.nodup
  slots a ha := (h.slots a ha).frame (.of_inode_eq (hino a ha))
  chain := h.chain.imp_of_mem_imp fun a b ha _ hab =>
    ⟨hab.1.frame (.of_inode_eq (hino a ha)), hab.2⟩
  last ss a hs := by
    have ha : a ∈ v.slots := by rw [show v.slots = ss ++ [a] from hs]; simp
    have hfr : Slot.Agree v.disk d' a := .of_inode_eq (hino a ha)
    have hok := h.slots a ha
    have hl := h.last ss a hs
    cases hp : v.phase with
    | idle =>
      rw [hp] at hl
      exact ⟨hl.1.frame hok hfr, hl.2⟩
    | writing e =>
      rw [hp] at hl
      exact ⟨⟨hl.1.1.frame hok hfr, hl.1.2⟩, hl.2⟩
    | due =>
      rw [hp] at hl
      exact hl
    | created =>
      rw [hp] at hl
      obtain ⟨h1, h2, h3, h4⟩ := hl
      refine ⟨h1, h2, h3, ?_⟩
      rw [← h4]
      simp only [Slot.bytes, hino a ha]
  busy := h.busy

theorem Ok.ino_ne (h : v.Ok) {ss ts : List Slot} {a : Slot} (hv : v.slots = ss ++ a :: ts) :
    (∀ x ∈ ss, x.ino ≠ a.ino) ∧ ∀ x ∈ ts, x.ino ≠ a.ino := by
  have hn := h.nodup
  rw [hv, map_append, map_cons, nodup_append, nodup_cons] at hn
  obtain ⟨-, ⟨hn1, -⟩, hn2⟩ := hn
  refine ⟨fun x hx he => ?_, fun x hx he => ?_⟩
  · exact hn2 _ (mem_map_of_mem hx) _ (by simp) he
  · exact hn1 (he ▸ mem_map_of_mem hx)

/-- **One file changes.** The disk changes only in its inode. -/
theorem Ok.update (h : v.Ok) {ss ts : List Slot} {a a' : Slot} {d' : WalDisk} {ph : Phase}
    (hv : v.slots = ss ++ a :: ts) (hdir : d'.dir = v.disk.dir) (hnext : d'.next = v.disk.next)
    (hin : ∀ i, i ≠ a.ino → d'.inode i = v.disk.inode i) (hino : a'.ino = a.ino)
    (hno : a'.file.walNo = a.file.walNo) (hok : a'.Ok d')
    (hprev : ∀ x ∈ ss.getLast?, x.Next a → x.Next a')
    (hseal : ∀ y ∈ ts.head?, a.Sealed v.disk → a.Next y → a'.Sealed d' ∧ a'.Next y)
    (hlast : ts = [] → LastOk d' ss a' ph) (hph : ts ≠ [] → v.phase = .idle ∧ ph = .idle) :
    View.Ok ⟨ss ++ a' :: ts, ph, v.request, d'⟩ := by
  obtain ⟨hne1, hne2⟩ := h.ino_ne hv
  have hfr1 : ∀ x ∈ ss, Slot.Agree v.disk d' x := fun x hx => .of_inode_eq (hin _ (hne1 x hx))
  have hfr2 : ∀ x ∈ ts, Slot.Agree v.disk d' x := fun x hx => .of_inode_eq (hin _ (hne2 x hx))
  refine ⟨?_, ?_, ?_, ?_, ?_, ?_, by simp⟩
  · rw [hdir, h.dir, hv]
    simp [hino, hno]
  · intro x hx
    rw [hnext]
    rcases mem_append.mp hx with hx | hx
    · exact h.lt x (by rw [hv]; simp [hx])
    · rcases mem_cons.mp hx with rfl | hx
      · rw [hino]
        exact h.lt a (by rw [hv]; simp)
      · exact h.lt x (by rw [hv]; simp [hx])
  · have := h.nodup
    rw [hv] at this
    simpa [hino] using this
  · intro x hx
    rcases mem_append.mp hx with hx | hx
    · exact (h.slots x (by rw [hv]; simp [hx])).frame (hfr1 x hx)
    · rcases mem_cons.mp hx with rfl | hx
      · exact hok
      · exact (h.slots x (by rw [hv]; simp [hx])).frame (hfr2 x hx)
  · have hc := h.chain
    rw [hv] at hc
    refine isChain_update hc (fun x hx _ _ hr => ⟨hr.1.frame (hfr1 x hx), hr.2⟩)
      (fun x hx _ _ hr => ⟨hr.1.frame (hfr2 x hx), hr.2⟩) (fun x hx hr => ?_)
      (fun y hy hr => hseal y hy hr.1 hr.2)
    exact ⟨hr.1.frame (hfr1 x (mem_of_getLast? hx)), hprev x hx hr.2⟩
  · intro ss' z hz
    rcases eq_nil_or_concat ts with rfl | ⟨ts', z', rfl⟩
    · obtain ⟨rfl, he⟩ := append_inj' hz rfl
      cases he
      exact hlast rfl
    · obtain ⟨hp, rfl⟩ := hph (by simp)
      have hz' : (ss ++ a' :: ts') ++ [z'] = ss' ++ [z] := by simpa using hz
      obtain ⟨rfl, he⟩ := append_inj' hz' rfl
      cases he
      have hl := h.last (ss ++ a :: ts') z (by rw [hv]; simp)
      rw [hp] at hl
      exact ⟨hl.1.frame (h.slots z (by rw [hv]; simp)) (hfr2 z (by simp)), hl.2⟩

end View

/-! ## The moves -/

theorem Body.shaped {b : Region} {len : ℕ} {recs : List Entry} (hb : Body b len h recs)
    (hlen : len < 2 ^ 32) : h.Shaped len := by
  refine ⟨hb.headerFits hlen, hb.idFrom_le, ?_⟩
  rcases hb with ⟨-, hv⟩ | ⟨hne, s, hs⟩
  · exact .inl ⟨hv.start, hv.stop⟩
  · have h1 := hs.fits
    refine .inr ⟨s, _, hs.start, hs.stop, hs.le_start, ?_, ?_⟩
    · -- the data of the first record is not empty
      obtain ⟨e, es, rfl⟩ := exists_cons_of_ne_nil hne
      have h2 := (hs.ok e (by simp)).pos
      have h3 := le_endOf (s + 17 + e.2.length) es
      rw [endOf_cons]
      omega
    · have := add_le_endOf s hne
      omega

namespace Slot

variable {d : WalDisk} {a : Slot}

theorem Ok.sealed (h : a.Ok d) (hh : a.hdr = some a.file.toHeader) (hp : a.pre = [])
    (hne : a.recs ≠ []) (hsafe : a.safe = a.recs.length) : a.Sealed d := by
  obtain ⟨s, hs⟩ := (body_of_ne_nil hne).mp h.body
  exact ⟨hne, hsafe, _, hh, by simpa [hp] using h.body, rfl, rfl, s, hs.start,
    by rw [hp]; exact hs.start⟩

theorem Ok.rooted (h : a.Ok d) (hh : a.hdr = some a.file.toHeader) (hp : a.pre = []) :
    a.Rooted d := by
  intro hne
  obtain ⟨s, hs⟩ := (body_of_ne_nil hne).mp h.body
  exact ⟨_, s, hh, hs.start, hs.le_start, by simpa [hp] using hs.laid, by rw [hp]; exact hs.start,
    by simp [hp]⟩

theorem Rooted.pre_eq_nil (h : a.Rooted d) (hh : a.hdr = some a.file.toHeader)
    (hne : a.recs ≠ []) : a.pre = [] := by
  obtain ⟨x, s, hx, hs, -, -, hst, -⟩ := h hne
  rw [hh] at hx
  cases hx
  rw [hs] at hst
  by_contra hpre
  have := add_le_endOf s hpre
  have := some.inj hst
  omega

omit [Crc] in
theorem agree_write {k : WriteKind} {off : ℕ} {bs : Bytes}
    (hoff : a.next ≤ off) : a.Agree d ((Event.write a.ino k off bs : WalEvent).apply d) := by
  refine ⟨apply_write_len .., ?_⟩
  rw [Slot.bytes, Slot.bytes, apply_write_bytes_self]
  exact (agreeOn_write (.inl hoff)).symm

theorem recAt_commit {e : Entry} (hcrc : (a.bytes d).read (a.next + 8) 4 = crcBytes e.2)
    (hlen : (a.bytes d).read (a.next + 12) 4 = toBe 4 e.2.length)
    (hdata : (a.bytes d).read (a.next + 16) e.2.length = e.2) :
    RecAt (a.bytes ((Event.write a.ino .id a.next (toBe 8 e.1) : WalEvent).apply d)) a.next e := by
  rw [Slot.bytes, apply_write_bytes_self]
  refine ⟨read_write_of_length (length_toBe _ _), ?_, ?_, ?_⟩ <;>
    rw [read_write_of_disjoint (.inr (by have := length_toBe 8 e.1; omega))]
  · exact hcrc
  · exact hlen
  · exact hdata

theorem Ok.push {d' : WalDisk} {e : Entry} (ha : a.Ok d) (hd : a.Agree d d')
    (he : EntryOk e) (hroom : a.Room e) (hid : a.recs ≠ [] → e.1 = a.file.idUntil + 1)
    (hrec : RecAt (a.bytes d') a.next e) : (a.push e).Ok d' := by
  have ha' := ha.frame hd
  refine { ha' with body := ?_, safe := ?_ }
  · refine (body_of_ne_nil (by simp [Slot.push])).mpr ?_
    rcases ha'.body with ⟨hn, hv⟩ | ⟨hne, s, hs⟩
    · have hnext := hv.next
      rw [Slot.Room] at hroom
      refine ⟨offsetLogs, ?_⟩
      simp only [Slot.push, hn, hv.start, nil_append, isNone_none, if_true,
        getD_none]
      rw [hnext] at hrec hroom ⊢
      exact .single he hroom hrec
    · have hnext := hs.next (a := a) rfl hne
      rw [Slot.Room, hnext] at hroom
      refine ⟨s, ?_⟩
      simp only [Slot.push, hs.start, isNone_some, getD_some, Bool.false_eq_true,
        if_false]
      rw [hnext] at hrec ⊢
      exact hs.snoc he (hid hne) hroom hrec
  · have := ha.safe
    simp only [Slot.push, length_append]
    omega

end Slot

namespace View

variable {v : View} {c : Cfg}

theorem Ok.note (h : v.Ok) (r : ℕ × ℕ) : View.Ok { v with request := r } :=
  h.disk r rfl le_rfl fun _ _ => rfl

theorem Ok.small (h : v.Ok) (m : Small) :
    View.Ok { v with disk := (Event.small m : WalEvent).apply v.disk } :=
  h.disk v.request rfl le_rfl fun _ _ => rfl

theorem Ok.writeStale (h : v.Ok) {ino : ℕ} (k : WriteKind) (off : ℕ) (bs : Bytes)
    (hi : ∀ a ∈ v.slots, a.ino ≠ ino) :
    View.Ok { v with disk := (Event.write ino k off bs : WalEvent).apply v.disk } :=
  h.disk v.request rfl le_rfl fun a ha => apply_write_inode_of_ne _ _ _ _ _ _ (hi a ha)

variable {ss ts : List Slot} {a b : Slot} {e : Entry} (h : v.Ok)
include h

theorem Ok.flush (hv : v.slots = ss ++ a :: ts) (hp : v.phase = .idle) :
    View.Ok { v with slots := ss ++ { a with safe := a.recs.length } :: ts } := by
  refine h.update hv rfl rfl (fun _ _ => rfl) rfl rfl ?_ (fun x _ hx => ⟨hx.no, hx.id, hx.hdr⟩)
    (fun y _ hs hn => ⟨⟨hs.1, rfl, hs.2.2⟩, hn.no, hn.id, hn.hdr⟩) (fun ht => ?_)
    (fun _ => ⟨hp, hp⟩)
  · exact { h.slots a (by rw [hv]; simp) with safe := le_rfl }
  · have := h.last ss a (by rw [hv, ht])
    rw [hp] at this ⊢
    exact this

theorem Ok.remap {o : Option ℕ} (hv : v.slots = ss ++ a :: ts) (hp : v.phase = .idle)
    (ho : ∀ i ∈ o, i = a.ino) :
    View.Ok { v with slots := ss ++ { a with file := { a.file with mmapMut := o } } :: ts } := by
  refine h.update hv rfl rfl (fun _ _ => rfl) rfl rfl ?_ (fun x _ hx => ⟨hx.no, hx.id, hx.hdr⟩)
    (fun y _ hs hn => ⟨hs, hn.no, hn.id, hn.hdr⟩) (fun ht => ?_) (fun _ => ⟨hp, hp⟩)
  · have := h.slots a (by rw [hv]; simp)
    exact { this with mapped := ho }
  · have := h.last ss a (by rw [hv, ht])
    rw [hp] at this ⊢
    exact this

theorem Ok.header (hv : v.slots = ss ++ a :: ts) (hp : ts ≠ [] → v.phase = .idle) :
    View.Ok { v with
      slots := ss ++ { a with hdr := some a.file.toHeader, pre := [] } :: ts
      phase := .idle
      disk := (Event.write a.ino .header 0 (buildHeader a.file.toHeader) : WalEvent).apply
        v.disk } := by
  have ha := h.slots a (by rw [hv]; simp)
  have hok : Slot.Ok ((Event.write a.ino .header 0 (buildHeader a.file.toHeader) : WalEvent).apply
      v.disk) { a with hdr := some a.file.toHeader, pre := [] } := by
    have hbytes : AgreeOn offsetLogs a.file.lenMax (a.bytes v.disk)
        ((a.bytes v.disk).write 0 (buildHeader a.file.toHeader)) :=
      (agreeOn_write (.inr (by rw [length_buildHeader]; rfl))).symm
    refine { ha with body := ?_, len := ?_, hdr := ?_ }
    · rw [Slot.bytes, apply_write_bytes_self]
      exact ha.body.congr hbytes
    · rw [apply_write_len]
      exact ha.len
    · rintro x hx
      cases hx
      refine ⟨?_, ha.body.shaped ha.lenMax_lt⟩
      rw [HdrAt, Slot.bytes, apply_write_bytes_self]
      exact read_write_of_length (length_buildHeader _)
  refine h.update hv rfl rfl (fun i hi => apply_write_inode_of_ne _ _ _ _ _ _ hi) rfl rfl hok
    (fun x _ hx => ⟨hx.no, hx.id, ?_⟩)
    (fun y _ hs hn => ⟨hok.sealed rfl rfl hs.1 hs.2.1, hn.no, hn.id, hn.hdr⟩)
    (fun _ => ⟨hok.rooted rfl rfl, rfl⟩) (fun ht => ⟨hp ht, rfl⟩)
  rintro z hz
  cases hz
  exact hx.id.imp id And.right

theorem Ok.field (k : WriteKind) {off : ℕ} (bs : Bytes) (hv : v.slots = ss ++ [a])
    (hp : v.phase = .writing e) (hoff : a.next ≤ off) :
    View.Ok { v with disk := (Event.write a.ino k off bs : WalEvent).apply v.disk } := by
  have ha := h.slots a (by rw [hv]; simp)
  have hfr : a.Agree v.disk ((Event.write a.ino k off bs : WalEvent).apply v.disk) :=
    Slot.agree_write hoff
  have hl := h.last ss a hv
  rw [hp] at hl
  rw [show v.slots = ss ++ a :: [] from hv]
  refine h.update hv rfl rfl (fun i hi => apply_write_inode_of_ne _ _ _ _ _ _ hi) rfl rfl
    (ha.frame hfr) (fun x _ hx => hx) (by simp) (fun _ => ?_) (by simp)
  rw [hp]
  exact ⟨⟨hl.1.1.frame ha hfr, hl.1.2⟩, hl.2⟩

theorem Ok.commit (hv : v.slots = ss ++ [a]) (hp : v.phase = .writing e)
    (hrec : RecAt (a.bytes ((Event.write a.ino .id a.next (toBe 8 e.1) : WalEvent).apply v.disk))
      a.next e) : View.Ok { v with
      slots := ss ++ [a.push e]
      phase := if a.recs = [] then .due else .idle
      disk := (Event.write a.ino .id a.next (toBe 8 e.1) : WalEvent).apply v.disk } := by
  have ha := h.slots a (by rw [hv]; simp)
  have hfr : a.Agree v.disk ((Event.write a.ino .id a.next (toBe 8 e.1) : WalEvent).apply v.disk) :=
    Slot.agree_write le_rfl
  have hl := h.last ss a hv
  rw [hp] at hl
  obtain ⟨⟨hroot, hsome⟩, he, hroom, hf1, hf2⟩ := hl
  refine h.update hv rfl rfl (fun i hi => apply_write_inode_of_ne _ _ _ _ _ _ hi) rfl rfl
    (ha.push hfr he hroom hf1 hrec) (fun x hx hn => ⟨hn.no, .inl ?_, hn.hdr⟩) (by simp)
    (fun _ => ?_) (by simp)
  · -- a file without records takes its first id from the entry
    rcases ha.body with ⟨hnil, hvac⟩ | ⟨hne, s, hs⟩
    · simpa [Slot.push, hvac.start] using hf2 hnil x hx
    · have : a.file.idFrom = x.file.idUntil + 1 := hn.id.resolve_right fun hc => hne hc.1
      simpa [Slot.push, hs.start] using this
  · by_cases hnil : a.recs = []
    · rw [if_pos hnil]
      exact ⟨by simp [Slot.push, hnil], hsome⟩
    · rw [if_neg hnil]
      refine ⟨fun _ => ?_, hsome⟩
      obtain ⟨x, s, hx, hs, hle, hlaid, hst, hok⟩ := hroot.frame ha hfr hnil
      obtain ⟨s', hh⟩ := (body_of_ne_nil hnil).mp ha.body
      obtain rfl : s' = endOf s a.pre := by
        have := hh.start
        rw [hst] at this
        exact (some.inj this).symm
      refine ⟨x, s, hx, hs, hle, ?_, by simp [Slot.push, hst], hok⟩
      simp only [Slot.push]
      rw [← append_assoc]
      refine laid_append.mpr ⟨hlaid, ?_, trivial⟩
      rw [endOf_append, ← hh.next rfl hnil]
      exact hrec

theorem Ok.begin (hv : v.slots = ss ++ [a]) (hp : v.phase = .idle) (he : EntryOk e)
    (hr : a.Room e) (hf : Follows ss a e) : View.Ok { v with phase := .writing e } := by
  refine { h with last := fun ss' a' hs => ?_, busy := fun _ => by simp [hv] }
  obtain ⟨rfl, heq⟩ := append_inj' (hv.symm.trans hs) rfl
  cases heq
  have hl := h.last ss a hv
  rw [hp] at hl
  exact ⟨hl, he, hr, hf⟩

theorem Ok.link (hv : v.slots = ss ++ a :: b :: ts) : a.Sealed v.disk ∧ a.Next b :=
  isChain_iff_forall_rel_of_append_cons_cons.mp h.chain hv

theorem Ok.sealed {x : Slot} (hv : v.slots = ss ++ [a]) (hx : x ∈ ss) :
    x.Sealed v.disk := by
  obtain ⟨p, q, rfl⟩ := append_of_mem hx
  cases q with
  | nil => exact (h.link (show v.slots = p ++ x :: a :: [] by simpa using hv)).1
  | cons y q => exact (h.link (show v.slots = p ++ x :: y :: (q ++ [a]) by simpa using hv)).1

theorem Ok.number (hv : v.slots = ss ++ [a, b]) (hp : v.phase = .idle)
    (hb : b.recs = []) : View.Ok { v with
      slots := ss ++ [a, { b with
        file := { b.file with
          idFrom := a.file.idUntil + 1
          idUntil := a.file.idUntil + 1 } }] } := by
  have hv' : v.slots = (ss ++ [a]) ++ b :: [] := by simpa using hv
  have hbok := h.slots b (by rw [hv]; simp)
  have haok := h.slots a (by rw [hv]; simp)
  have hlink := h.link hv
  have hl := h.last _ b hv'
  rw [hp] at hl
  obtain ⟨sa, hsa⟩ := (body_of_ne_nil hlink.1.1).mp haok.body
  have hlt := hsa.idUntil_lt hlink.1.1
  rw [u64Max] at hlt
  have hvac : Vacant b.file.toHeader := by
    have := hbok.body
    rwa [hb, body_nil] at this
  rw [show ss ++ [a, { b with
        file := { b.file with
          idFrom := a.file.idUntil + 1
          idUntil := a.file.idUntil + 1 } }] = (ss ++ [a]) ++ [{ b with
        file := { b.file with
          idFrom := a.file.idUntil + 1
          idUntil := a.file.idUntil + 1 } }] by simp]
  refine h.update hv' rfl rfl (fun _ _ => rfl) rfl rfl ?_ (fun x hx hn => ?_) (by simp)
    (fun _ => ?_) (by simp)
  · refine { hbok with body := ?_ }
    simp only [hb]
    exact body_nil.mpr ⟨hvac.start, hvac.stop, rfl, by simp only; omega⟩
  · obtain rfl : a = x := by simpa using hx
    exact ⟨hn.no, .inl rfl, hn.hdr⟩
  · rw [hp]
    exact ⟨fun hne => absurd hb hne, hl.2⟩

theorem Ok.purge {x : Header} {j s : ℕ} (hv : v.slots = a :: ss) (hp : v.phase = .idle)
    (hj : a.recs.drop j ≠ []) (hb : Body (a.bytes v.disk) a.file.lenMax x (a.recs.drop j))
    (hs : a.file.dataStart = some s) (hs' : x.dataStart = some (endOf s (a.recs.take j)))
    (hi : x.idUntil = a.file.idUntil) (he : x.dataEnd = a.file.dataEnd) : View.Ok { v with
      slots := { a with
        file := { a.file with toHeader := x }
        recs := a.recs.drop j
        safe := a.safe - j
        pre := a.pre ++ a.recs.take j } :: ss } := by
  have ha := h.slots a (by rw [hv]; simp)
  have hne : a.recs ≠ [] := fun hc => hj (by simp [hc])
  -- the records that are left out now belong to those before the data
  have hpre : a.pre ++ a.recs.take j ++ a.recs.drop j = a.pre ++ a.recs := by
    rw [append_assoc, take_append_drop]
  have hstart : ∀ s0, a.file.dataStart = some (endOf s0 a.pre) →
      x.dataStart = some (endOf s0 (a.pre ++ a.recs.take j)) := by
    intro s0 h0
    rw [hs] at h0
    rw [hs', some.inj h0, endOf_append]
  refine h.update (show v.slots = [] ++ a :: ss from hv) rfl rfl (fun _ _ => rfl) rfl rfl ?_ (by simp)
    (fun y _ hseal hn => ⟨?_, hn.no, ?_, ?_⟩) (fun ht => ?_) (fun _ => ⟨hp, hp⟩)
  · refine { ha with body := hb, safe := ?_ }
    have := ha.safe
    simp only [length_drop]
    omega
  · obtain ⟨-, hsf, y, hy, hby, hyi, hye, s0, h0, h1⟩ := hseal
    exact ⟨hj, by simp [hsf], y, hy, by simp only [hpre]; exact hby, hyi.trans hi.symm,
      hye.trans he.symm, s0, h0, hstart s0 h1⟩
  · simpa only [hi] using hn.id
  · simpa only [hi] using hn.hdr
  · have hl := h.last [] a (by rw [hv, ht]; rfl)
    rw [hp] at hl ⊢
    refine ⟨fun _ => ?_, hl.2⟩
    obtain ⟨y, s0, hy, hys, hle, hlaid, hst, hok⟩ := hl.1 hne
    refine ⟨y, s0, hy, hys, hle, by simp only [hpre]; exact hlaid, hstart s0 hst, fun e he => ?_⟩
    rcases mem_append.mp he with he | he
    · exact hok e he
    · exact ha.body.ok e (mem_of_mem_take he)

theorem Ok.truncate {x : Header} {j : ℕ} (hv : v.slots = ss ++ [a])
    (hp : v.phase = .idle) (hb : Body (a.bytes v.disk) a.file.lenMax x (a.recs.take j))
    (hi : x.idFrom = a.file.idFrom) (hs : a.recs.take j ≠ [] → x.dataStart = a.file.dataStart) :
    View.Ok { v with
      slots := ss ++ [{ a with
        file := { a.file with toHeader := x }
        recs := a.recs.take j
        safe := min a.safe j }] } := by
  have ha := h.slots a (by rw [hv]; simp)
  have hl := h.last ss a hv
  rw [hp] at hl
  refine h.update hv rfl rfl (fun _ _ => rfl) rfl rfl ?_ (fun y _ hn => ⟨hn.no, ?_, hn.hdr⟩)
    (by simp) (fun _ => ?_) (by simp)
  · refine { ha with body := hb, safe := ?_ }
    have := ha.safe
    simp only [length_take]
    omega
  · refine hn.id.imp (fun hid => ?_) (fun hid => ?_)
    · simpa only [hi] using hid
    · obtain ⟨hnil, hun⟩ := hid
      have hvac : Vacant x := by
        rw [hnil, take_nil] at hb
        exact body_nil.mp hb
      exact ⟨by simp [hnil], hvac.eq_unused (by rw [hi, hun]; rfl)⟩
  · rw [hp]
    refine ⟨fun hne => ?_, hl.2⟩
    have hne' : a.recs ≠ [] := fun hc => hne (by simp [hc])
    obtain ⟨y, s0, hy, hys, hle, hlaid, hst, hok⟩ := hl.1 hne'
    refine ⟨y, s0, hy, hys, hle, ?_, (hs hne).trans hst, hok⟩
    rw [← take_append_drop j a.recs, ← append_assoc] at hlaid
    exact (laid_append.mp hlaid).1

theorem Ok.create {no n : ℕ} (hp : v.phase = .idle) (hmin : minWalSize ≤ n)
    (hmax : n < u32Max) (hno : no < 10 ^ 16)
    (hlast : ∀ ss a, v.slots = ss ++ [a] → no = a.file.walNo + 1 ∧ a.recs ≠ [] ∧
      a.hdr = some a.file.toHeader ∧ a.safe = a.recs.length) : View.Ok { v with
      slots := v.slots ++ [Slot.fresh no n v.disk.next]
      phase := .created
      disk := (Event.create no n : WalEvent).apply v.disk } := by
  have hin : ∀ a ∈ v.slots, ((Event.create no n : WalEvent).apply v.disk).inode a.ino =
      v.disk.inode a.ino := fun a ha => apply_create_inode_of_ne _ _ _ _ (h.lt a ha).ne
  have hfr : ∀ a ∈ v.slots, a.Agree v.disk ((Event.create no n : WalEvent).apply v.disk) :=
    fun a ha => .of_inode_eq (hin a ha)
  refine ⟨?_, ?_, ?_, ?_, ?_, ?_, by simp⟩
  · simp [h.dir, Slot.fresh]
  · intro a ha
    rcases mem_append.mp ha with ha | ha
    · exact (h.lt a ha).trans (Nat.lt_succ_self _)
    · rw [mem_singleton.mp ha]
      exact Nat.lt_succ_self _
  · rw [map_append, nodup_append]
    refine ⟨h.nodup, by simp, fun x hx y hy => ?_⟩
    obtain ⟨a, ha, rfl⟩ := mem_map.mp hx
    have hy' : y = v.disk.next := by simpa [Slot.fresh] using hy
    rw [hy']
    exact (h.lt a ha).ne
  · intro a ha
    rcases mem_append.mp ha with ha | ha
    · exact (h.slots a ha).frame (hfr a ha)
    · rw [mem_singleton.mp ha]
      refine ⟨body_nil.mpr ⟨rfl, rfl, rfl, by norm_num [Slot.fresh, Header.unused]⟩, ?_, hmin,
        hmax, hno, by simp [Slot.fresh], rfl, le_rfl, by simp [Slot.fresh]⟩
      simp [Slot.fresh]
  · refine isChain_append.mpr ⟨?_, isChain_singleton _, fun a ha b hb => ?_⟩
    · exact h.chain.imp_of_mem_imp fun a _ ha _ hr => ⟨hr.1.frame (hfr a ha), hr.2⟩
    · obtain ⟨ss, hss⟩ := getLast?_eq_some_iff.mp ha
      obtain ⟨h1, h2, h3, h4⟩ := hlast ss a hss
      have ha' : a ∈ v.slots := mem_of_getLast? ha
      have hl := h.last ss a hss
      rw [hp] at hl
      cases hb
      refine ⟨?_, h1, .inr ⟨rfl, rfl⟩, by simp [Slot.fresh]⟩
      exact ((h.slots a ha').sealed h3 (hl.1.pre_eq_nil h3 h2) h2 h4).frame (hfr a ha')
  · intro ss a ha
    obtain ⟨-, heq⟩ := append_inj' ha rfl
    cases heq
    refine ⟨rfl, rfl, rfl, ?_⟩
    simp [Slot.bytes, Slot.fresh]

theorem Ok.walNo_lt : v.slots.Pairwise fun a b => a.file.walNo < b.file.walNo := by
  have hc : (v.slots.map fun a => a.file.walNo).IsChain (· < ·) :=
    isChain_map_of_isChain _ (fun a b hab => by have := hab.2.no; omega) h.chain
  exact pairwise_map.mp hc.pairwise

theorem Ok.lookup (ha : a ∈ v.slots) : v.disk.lookup a.file.walNo = some a.ino := by
  refine Disk.lookup_of_mem ?_ (by rw [h.dir]; exact List.mem_map_of_mem ha)
  rw [h.dir, List.map_map, List.Nodup, List.pairwise_map]
  exact h.walNo_lt.imp fun hlt => hlt.ne

theorem Ok.dir_remove (hv : v.slots = ss ++ a :: ts) :
    v.disk.dir.filter (·.1 ≠ a.file.walNo) =
      (ss ++ ts).map fun x => (x.file.walNo, x.ino) := by
  have hw := h.walNo_lt
  rw [hv, pairwise_append, pairwise_cons] at hw
  obtain ⟨-, ⟨hw1, -⟩, hw2⟩ := hw
  have h1 : (ss.map fun x => (x.file.walNo, x.ino)).filter (·.1 ≠ a.file.walNo) =
      ss.map fun x => (x.file.walNo, x.ino) := by
    refine filter_eq_self.mpr fun p hp => ?_
    obtain ⟨x, hx, rfl⟩ := mem_map.mp hp
    have := hw2 x hx a (by simp)
    simp; omega
  have h2 : (ts.map fun x => (x.file.walNo, x.ino)).filter (·.1 ≠ a.file.walNo) =
      ts.map fun x => (x.file.walNo, x.ino) := by
    refine filter_eq_self.mpr fun p hp => ?_
    obtain ⟨x, hx, rfl⟩ := mem_map.mp hp
    have := hw1 x hx
    simp; omega
  rw [h.dir, hv, map_append, map_cons, filter_append, h1,
    filter_cons_of_neg (by simp), h2, map_append]

theorem Ok.before (hv : v.slots = ss ++ a :: ts) (hb : b ∈ ts) (hu : ¬ b.Unused) :
    a.file.idUntil < b.file.idFrom := by
  induction ts generalizing ss a with
  | nil => simp at hb
  | cons x ts ih =>
    have hl := h.link hv
    rcases mem_cons.mp hb with rfl | hb'
    · have := hl.2.id.resolve_right hu
      omega
    · have hv' : v.slots = (ss ++ [a]) ++ x :: ts := by simpa using hv
      have hx := ih hv' hb'
      -- `x` is not the last file, so it has records
      obtain ⟨y, ts', rfl⟩ := exists_cons_of_ne_nil (ne_nil_of_mem hb')
      have hx1 := (h.link hv').1.1
      have hx2 := hl.2.id.resolve_right fun hc => hx1 hc.1
      have hx3 := (h.slots x (by rw [hv]; simp)).body.idFrom_le
      omega

theorem Ok.removeFront (hv : v.slots = a :: ss) (hp : v.phase = .idle) : View.Ok { v with
      slots := ss
      disk := (Event.remove a.file.walNo : WalEvent).apply v.disk } where
  dir := (h.dir_remove (show v.slots = [] ++ a :: ss from hv)).trans rfl
  lt x hx := h.lt x (by rw [hv]; simp [hx])
  nodup := by
    have := h.nodup
    rw [hv, map_cons, nodup_cons] at this
    exact this.2
  slots x hx := (h.slots x (by rw [hv]; simp [hx])).frame (.of_inode_eq rfl)
  chain := by
    have := h.chain
    rw [hv] at this
    exact this.tail
  last ss' x hx := by
    have := h.last (a :: ss') x (by rw [hv, show ss = ss' ++ [x] from hx]; rfl)
    rw [hp] at this
    rw [hp]
    exact this
  busy hne := absurd hp hne

theorem Ok.removeBack (hv : v.slots = ss ++ [a]) (hp : v.phase = .idle) :
    View.Ok { v with
      slots := ss
      disk := (Event.remove a.file.walNo : WalEvent).apply v.disk } where
  dir := (h.dir_remove hv).trans (by simp)
  lt x hx := h.lt x (by rw [hv]; simp [hx])
  nodup := by
    have := h.nodup
    rw [hv, map_append, nodup_append] at this
    exact this.1
  slots x hx := (h.slots x (by rw [hv]; simp [hx])).frame (.of_inode_eq rfl)
  chain := by
    have := h.chain
    rw [hv] at this
    exact this.left_of_append
  last ss' x hx := by
    have hs := (h.link (show v.slots = ss' ++ x :: a :: [] by
      rw [hv, show ss = ss' ++ [x] from hx]; simp)).1
    obtain ⟨-, -, y, hy, -⟩ := id hs
    rw [hp]
    exact ⟨hs.rooted, by simp [hy]⟩
  busy hne := absurd hp hne

end View

theorem Move.ok {l : Label} (hm : Move c v l v') (h : v.Ok) : v'.Ok := by
  cases hm with
  | note x hp hx => exact h.note _
  | small m => exact h.small m
  | flush ss a ts hv hp hh => exact h.flush hv hp
  | flushStale ino hp hi => exact h
  | writeStale ino k off bs hp hi hk hlt => exact h.writeStale k off bs hi
  | header ss a ts hv hp =>
    exact h.header hv fun ht => hp.resolve_right fun hc => ht hc.2
  | field ss a e k off bs hv hp hf => exact h.field k bs hv hp (by cases hf <;> omega)
  | commit ss a e hv hp hcrc hlen hdata => exact h.commit hv hp (Slot.recAt_commit hcrc hlen hdata)
  | create no hp hmin hno hnil hlast =>
    exact h.create hp hmin c.walSize_lt hno hlast
  | removeFront a ss hv hp hr => exact h.removeFront hv hp
  | removeBack ss a hv hp hr => exact h.removeBack hv hp
  | begin ss a e hv hp he hr hf => exact h.begin hv hp he hr hf
  | number ss a b hv hp hb => exact h.number hv hp hb
  | remap ss a ts o hv hp ho => exact h.remap hv hp ho
  | purge a ss x j s hv hp hj hb hs hs' hi he hr => exact h.purge hv hp hj hb hs hs' hi he
  | truncate ss a x j hv hp hb hi hs hr => exact h.truncate hv hp hb hi hs

theorem ok_of_path {ls : List Label} (h : Path (Move c) v ls v') (hv : v.Ok) : v'.Ok :=
  h.invariant (I := fun _ v => v.Ok) hv fun _ _ _ _ ht hm => hm.ok ht

/-! ## Single files -/

/-- What a move does to a file that stays in the set. -/
inductive Slot.Becomes : Label → Slot → Slot → Prop
  | same (x : Label) (a : Slot) : Becomes x a a
  | flush (a : Slot) (hh : a.hdr = some a.file.toHeader) :
      Becomes (.event (.flush a.ino)) a { a with safe := a.recs.length }
  | header (a : Slot) :
      Becomes (.event (.write a.ino .header 0 (buildHeader a.file.toHeader))) a
        { a with hdr := some a.file.toHeader, pre := [] }
  | push (a : Slot) (e : Entry) : Becomes (.event (.write a.ino .id a.next (toBe 8 e.1))) a (a.push e)
  | number (a : Slot) (id : ℕ) (ha : a.recs = []) :
      Becomes .number a { a with file := { a.file with idFrom := id, idUntil := id } }
  | remap (a : Slot) (o : Option ℕ) : Becomes .remap a { a with file := { a.file with mmapMut := o } }
  | purge (a : Slot) (h : Header) (j : ℕ) :
      Becomes .purge a { a with
        file := { a.file with toHeader := h }
        recs := a.recs.drop j
        safe := a.safe - j
        pre := a.pre ++ a.recs.take j }
  | truncate (a : Slot) (h : Header) (j : ℕ) :
      Becomes .truncate a { a with
        file := { a.file with toHeader := h }
        recs := a.recs.take j
        safe := min a.safe j }

omit [Crc] in
theorem mem_update {α : Type} {l ss ts : List α} {a a' b : α} (hl : l = ss ++ a :: ts)
    (hb : b ∈ ss ++ a' :: ts) : b ∈ l ∨ b = a' ∧ a ∈ l := by
  subst hl
  rcases mem_append.mp hb with hb | hb
  · exact .inl (by simp [hb])
  rcases mem_cons.mp hb with rfl | hb
  · exact .inr (by simp)
  · exact .inl (by simp [hb])

theorem Move.becomes {x : Label} (hm : Move c v x v') {b : Slot} (hb : b ∈ v'.slots) :
    (∃ a ∈ v.slots, a.Becomes x b) ∨
      ∃ no, x = .event (.create no c.walSize) ∧ b = Slot.fresh no c.walSize v.disk.next := by
  have hold : ∀ {y : Label} {ss : List Slot} {a a' : Slot} {ts : List Slot},
      v.slots = ss ++ a :: ts → a.Becomes y a' → b ∈ ss ++ a' :: ts →
      ∃ a ∈ v.slots, a.Becomes y b := by
    intro y ss a a' ts hv hc hb
    rcases mem_update hv hb with hb | ⟨rfl, ha⟩
    · exact ⟨b, hb, .same _ _⟩
    · exact ⟨a, ha, hc⟩
  cases hm with
  | note | small | flushStale | writeStale | field | begin => exact .inl ⟨b, hb, .same _ _⟩
  | flush ss a ts hv hp hh => exact .inl (hold hv (.flush a hh) hb)
  | header ss a ts hv hp => exact .inl (hold hv (.header a) hb)
  | commit ss a e hv hp hcrc hlen hdata => exact .inl (hold hv (.push a e) hb)
  | create no hp hmin hno hnil hlast =>
    rcases mem_append.mp hb with hb | hb
    · exact .inl ⟨b, hb, .same _ _⟩
    · exact .inr ⟨no, rfl, mem_singleton.mp hb⟩
  | removeFront a ss hv hp hr =>
    have hb' : b ∈ ss := hb
    exact .inl ⟨b, by simp [hv, hb'], .same _ _⟩
  | removeBack ss a hv hp hr =>
    have hb' : b ∈ ss := hb
    exact .inl ⟨b, by simp [hv, hb'], .same _ _⟩
  | number ss a b' hv hp hb' =>
    have hv' : v.slots = (ss ++ [a]) ++ b' :: [] := by simp [hv]
    exact .inl (hold hv' (.number b' _ hb') (by simpa using hb))
  | remap ss a ts o hv hp ho => exact .inl (hold hv (.remap a o) hb)
  | purge a ss h j s hv hp hj hbd hs hs' hi he hr =>
    have hv' : v.slots = [] ++ a :: ss := by simp [hv]
    exact .inl (hold hv' (.purge a h j) (by simpa using hb))
  | truncate ss a h j hv hp hbd hi hs hr => exact .inl (hold hv (.truncate a h j) hb)

end Hiqlite.Wal
