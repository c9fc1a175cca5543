import Hiqlite.Wal.Recover

/-!
# W17 — files that only grow

While nothing is removed, the bytes behind the records are null, up to the record that is being
written, and the header on disk describes the first records of its file.

* `View.Grown`: the invariant; **`Move.grown`**: moves that remove nothing keep it;
* **`Grown.recovers`**: what a kill at such a view leaves to be recovered.
-/

namespace Hiqlite.Wal

open List Option Region WalFileSet

variable [Crc]

def Slot.Starts (a : Slot) : Prop :=
  a.file.dataStart.getD offsetLogs = offsetLogs ∧
    ∀ h ∈ a.hdr, h.dataStart.getD offsetLogs = offsetLogs

/-- The header on disk describes the first records of the file. -/
def Slot.Lags (d : WalDisk) (a : Slot) (h : Header) : Prop :=
  ∃ xs, Body (a.bytes d) a.file.lenMax h xs ∧ xs <+: a.recs ∧ (a.recs ≠ [] → xs ≠ []) ∧
    ∀ e ∈ h.dataEnd, e < a.next

/-- **Nothing was removed.** The bytes behind the records are null, up to the record that is being
written. -/
structure View.Grown (v : View) : Prop where
  pre : ∀ a ∈ v.slots, a.pre = []
  starts : ∀ a ∈ v.slots, a.Starts
  clean : ∀ a ∈ v.slots, ∀ i, a.next ≤ i → a.bytes v.disk i ≠ 0 →
    ∃ ss e, v.slots = ss ++ [a] ∧ v.phase = .writing e ∧ a.next + 8 ≤ i ∧
      i < a.next + 16 + e.2.length
  hdr : ∀ ss a, v.slots = ss ++ [a] → ∀ h ∈ a.hdr,
    v.phase = .due ∧ Vacant h ∨ v.phase ≠ .due ∧ a.Lags v.disk h

def View.Started (v : View) : Prop :=
  v.slots ≠ [] ∧ (v.phase = .created → ∃ ss b a, v.slots = ss ++ [b, a])

def Label.Keeps : Label → Prop
  | .event (.remove _) | .purge | .truncate => False
  | _ => True

section

variable {c : Cfg} {v v' : View} {x : Label}

theorem Move.pre (hm : Move c v x v') (hx : x ≠ .purge) (h : ∀ a ∈ v.slots, a.pre = []) :
    ∀ a ∈ v'.slots, a.pre = [] := by
  intro b hb
  rcases hm.becomes hb with ⟨a, ha, hc⟩ | ⟨no, -, rfl⟩
  · have hp := h a ha
    cases hc with
    | header => rfl
    | purge => exact absurd rfl hx
    | _ => exact hp
  · rfl

theorem Move.starts (hm : Move c v x v') (hx : x.Keeps) (h : ∀ a ∈ v.slots, a.Starts) :
    ∀ a ∈ v'.slots, a.Starts := by
  intro b hb
  rcases hm.becomes hb with ⟨a, ha, hc⟩ | ⟨no, -, rfl⟩
  · have hs := h a ha
    cases hc with
    | purge | truncate => exact hx.elim
    | header =>
      refine ⟨hs.1, fun h hh => ?_⟩
      cases hh
      exact hs.1
    | push e => exact ⟨hs.1, hs.2⟩
    | _ => exact hs
  · exact ⟨rfl, fun h hh => by cases hh⟩

theorem View.Grown.clean_of_ne_writing (hg : v.Grown) (hp : ∀ e, v.phase ≠ .writing e) {a : Slot}
    (ha : a ∈ v.slots) {i : ℕ} (hi : a.next ≤ i) : a.bytes v.disk i = 0 := by
  by_contra hne
  obtain ⟨ss, e, -, he, -⟩ := hg.clean a ha i hi hne
  exact hp e he

theorem View.Grown.clean_of_mem (hg : v.Grown) (hv : v.Ok) {ss : List Slot} {a y : Slot}
    (hs : v.slots = ss ++ [a]) (hy : y ∈ ss) {i : ℕ} (hi : y.next ≤ i) : y.bytes v.disk i = 0 := by
  by_contra hne
  obtain ⟨ss', e, hs', -⟩ := hg.clean y (by simp [hs, hy]) i hi hne
  obtain ⟨-, hya⟩ := append_inj' (hs.symm.trans hs') rfl
  obtain rfl : a = y := singleton_inj.mp hya
  exact (hv.ino_ne hs).1 a hy rfl

omit [Crc] in
theorem Slot.bytes_write {d : WalDisk} {b : Slot} {ino off i : ℕ} {k : WriteKind} {bs : Bytes}
    (h : b.ino ≠ ino ∨ i < off ∨ off + bs.length ≤ i) :
    b.bytes ((Event.write ino k off bs : WalEvent).apply d) i = b.bytes d i := by
  unfold Slot.bytes
  by_cases hi : b.ino = ino
  · subst hi
    rw [apply_write_bytes_self]
    rcases h with h | h | h
    · exact absurd rfl h
    · exact write_apply_of_lt h
    · exact write_apply_of_ge h
  · rw [apply_write_inode_of_ne _ _ _ _ _ _ hi]

theorem Move.clean (hm : Move c v x v') (hx : x.Keeps) (hv : v.Ok) (hg : v.Grown) :
    ∀ a ∈ v'.slots, ∀ i, a.next ≤ i → a.bytes v'.disk i ≠ 0 →
      ∃ ss e, v'.slots = ss ++ [a] ∧ v'.phase = .writing e ∧ a.next + 8 ≤ i ∧
        i < a.next + 16 + e.2.length := by
  intro b hb i hi
  have hidle : v.phase = .idle → ∀ e, v.phase ≠ .writing e := fun hp e => by simp [hp]
  cases hm with
  | removeFront | removeBack | purge | truncate => exact hx.elim
  | note | small | flushStale => exact hg.clean b hb i hi
  | flush ss a ts hs hp hh =>
    refine absurd ?_
    rcases mem_update hs hb with hb | ⟨rfl, ha⟩
    · exact hg.clean_of_ne_writing (hidle hp) hb hi
    · exact hg.clean_of_ne_writing (hidle hp) ha hi
  | writeStale ino k off bs hp hin hk hlt =>
    refine absurd ?_
    rw [Slot.bytes_write (.inl (hin b hb))]
    exact hg.clean_of_ne_writing (hidle hp) hb hi
  | header ss a ts hs hp =>
    refine absurd ?_
    have hp' : ∀ e, v.phase ≠ .writing e := fun e he => by simp [he] at hp
    have hlen := length_buildHeader a.file.toHeader
    rw [Slot.bytes_write]
    · rcases mem_update hs hb with hb | ⟨rfl, ha⟩
      · exact hg.clean_of_ne_writing hp' hb hi
      · exact hg.clean_of_ne_writing hp' ha hi
    · have hle : offsetLogs ≤ b.next := by
        rcases mem_update hs hb with hb | ⟨rfl, ha⟩
        · exact (hv.slots b hb).offsetLogs_le_next
        · exact (hv.slots a ha).offsetLogs_le_next
      rw [offsetLogs] at hle
      omega
  | field ss a e k off bs hs hp hf =>
    intro hne
    have hb' := hb
    rw [show v.slots = ss ++ [a] from hs] at hb'
    rcases mem_append.mp hb' with hb' | hb'
    · refine absurd ?_ hne
      rw [Slot.bytes_write (.inl ((hv.ino_ne hs).1 b hb'))]
      exact hg.clean_of_mem hv hs hb' hi
    · obtain rfl := mem_singleton.mp hb'
      refine ⟨ss, e, hs, hp, ?_⟩
      by_contra hout
      have hcl := length_crcBytes e.2
      have hll := length_toBe 4 e.2.length
      rw [Slot.bytes_write (by cases hf <;> omega)] at hne
      obtain ⟨ss', e', -, hp', hlo, hup⟩ := hg.clean b (by simp [hs]) i hi hne
      cases hp.symm.trans hp'
      omega
  | commit ss a e hs hp hcrc hlen hdata =>
    refine absurd ?_
    have hl := length_toBe 8 e.1
    rcases mem_append.mp hb with hb | hb
    · rw [Slot.bytes_write (.inl ((hv.ino_ne hs).1 b hb))]
      exact hg.clean_of_mem hv hs hb hi
    · obtain rfl := mem_singleton.mp hb
      have hnext : (a.push e).next = a.next + 16 + e.2.length + 1 := rfl
      rw [Slot.bytes_write (by omega)]
      by_contra hne
      obtain ⟨ss', e', -, hp', hlo, hup⟩ := hg.clean a (by simp [hs]) i (by omega) hne
      cases hp.symm.trans hp'
      omega
  | create no hp hmin hno hnil hlast =>
    refine absurd ?_
    rcases mem_append.mp hb with hb | hb
    · rw [Slot.bytes, apply_create_inode_of_ne _ _ _ _ (hv.lt b hb).ne]
      exact hg.clean_of_ne_writing (hidle hp) hb hi
    · obtain rfl := mem_singleton.mp hb
      rw [Slot.bytes, Slot.fresh, apply_create_inode_next]
      rfl
  | begin ss a e hs hp he hr hf =>
    exact absurd (hg.clean_of_ne_writing (hidle hp) hb hi)
  | number ss a b' hs hp hb' =>
    refine absurd ?_
    rcases mem_update (show v.slots = (ss ++ [a]) ++ b' :: [] by simp [hs])
      (show b ∈ (ss ++ [a]) ++ _ :: [] by simpa using hb) with hb | ⟨rfl, ha⟩
    · exact hg.clean_of_ne_writing (hidle hp) hb hi
    · exact hg.clean_of_ne_writing (hidle hp) ha hi
  | remap ss a ts o hs hp ho =>
    refine absurd ?_
    rcases mem_update hs hb with hb | ⟨rfl, ha⟩
    · exact hg.clean_of_ne_writing (hidle hp) hb hi
    · exact hg.clean_of_ne_writing (hidle hp) ha hi

theorem Slot.Lags.congr {d d' : WalDisk} {a a' : Slot} {h : Header} (hl : a.Lags d h)
    (hrecs : a.recs <+: a'.recs) (hnil : a'.recs ≠ [] → a.recs ≠ [])
    (hlen : a'.file.lenMax = a.file.lenMax) (hnext : a.next ≤ a'.next)
    (hb : AgreeOn offsetLogs a.next (a.bytes d) (a'.bytes d')) : a'.Lags d' h := by
  obtain ⟨xs, hbody, hpre, hne, hend⟩ := hl
  refine ⟨xs, ?_, hpre.trans hrecs, fun hn => hne (hnil hn), fun e he => (hend e he).trans_le hnext⟩
  rw [hlen]
  rcases hbody with ⟨hn, hv⟩ | ⟨hn, s, hs⟩
  · exact .inl ⟨hn, hv⟩
  · have hlt := hend _ hs.stop
    exact .inr ⟨hn, s, hs.congr (hb.mono hs.le_start (by omega))⟩

omit [Crc] in
theorem last_update {l ss ts ss' : List Slot} {a a' z : Slot} (hl : l = ss ++ a :: ts)
    (hz : ss ++ a' :: ts = ss' ++ [z]) :
    z = a' ∧ l = ss' ++ [a] ∨ ts ≠ [] ∧ ∃ ss'', l = ss'' ++ [z] := by
  rcases eq_nil_or_concat' ts with rfl | ⟨ts, t, rfl⟩
  · obtain ⟨rfl, h⟩ := append_inj' hz rfl
    exact .inl ⟨(singleton_inj.mp h).symm, hl⟩
  · rw [← cons_append, ← append_assoc] at hz
    obtain ⟨-, h⟩ := append_inj' hz rfl
    rw [← singleton_inj.mp h]
    exact .inr ⟨by simp, ss ++ a :: ts, by simp [hl]⟩

theorem Move.lags (hm : Move c v x v') (hx : x.Keeps) (hv : v.Ok) (hg : v.Grown) :
    ∀ ss a, v'.slots = ss ++ [a] → ∀ h ∈ a.hdr,
      v'.phase = .due ∧ Vacant h ∨ v'.phase ≠ .due ∧ a.Lags v'.disk h := by
  have hidle : v.phase = .idle → ∀ ss a, v.slots = ss ++ [a] → ∀ h ∈ a.hdr, a.Lags v.disk h :=
    fun hp ss a hs h hh => ((hg.hdr ss a hs h hh).resolve_left fun hd => by simp [hp] at hd).2
  have hne : v.phase = .idle → v.phase ≠ .due := fun hp => by simp [hp]
  intro ss' z hz h hh
  cases hm with
  | removeFront | removeBack | purge | truncate => exact hx.elim
  | note | small | flushStale => exact hg.hdr ss' z hz h hh
  | flush ss a ts hs hp hh' =>
    refine .inr ⟨hne hp, ?_⟩
    rcases last_update hs hz with ⟨rfl, hs'⟩ | ⟨ht, ss'', hs'⟩
    · exact (hidle hp _ a hs' h hh).congr prefix_rfl id rfl le_rfl (.refl _ _ _)
    · exact hidle hp _ z hs' h hh
  | writeStale ino k off bs hp hin hk hlt =>
    have hz' : v.slots = ss' ++ [z] := hz
    refine .inr ⟨hne hp, (hidle hp _ z hz' h hh).congr prefix_rfl id rfl le_rfl fun i _ _ => ?_⟩
    exact (Slot.bytes_write (k := k) (.inl (hin z (by simp [hz'])))).symm
  | header ss a ts hs hp =>
    refine .inr ⟨by simp, ?_⟩
    have hlen := length_buildHeader a.file.toHeader
    have hagree : ∀ (y : Slot) hi, AgreeOn offsetLogs hi (y.bytes v.disk)
        (y.bytes ((Event.write a.ino .header 0 (buildHeader a.file.toHeader) : WalEvent).apply
          v.disk)) := fun y _ i hi _ => by
      rw [offsetLogs] at hi
      exact (Slot.bytes_write (.inr (.inr (by omega)))).symm
    rcases last_update hs hz with ⟨rfl, hs'⟩ | ⟨ht, ss'', hs'⟩
    · cases hh
      refine ⟨a.recs, (hv.slots a (by simp [hs])).body.congr (hagree a _), prefix_rfl, id, fun e he => ?_⟩
      rw [Slot.next, show a.file.dataEnd = some e from he]
      exact Nat.lt_succ_self e
    · have hp' : v.phase = .idle := hp.resolve_right fun hc => ht hc.2
      exact (hidle hp' _ z hs' h hh).congr prefix_rfl id rfl le_rfl (hagree z _)
  | field ss a e k off bs hs hp hf =>
    have hz' : v.slots = ss' ++ [z] := hz
    have hl := ((hg.hdr ss' z hz' h hh).resolve_left fun hd => by simp [hp] at hd).2
    obtain ⟨-, hza⟩ := append_inj' (hs.symm.trans hz') rfl
    obtain rfl := singleton_inj.mp hza
    refine .inr ⟨by simp [hp], hl.congr prefix_rfl id rfl le_rfl fun i _ hi => ?_⟩
    exact (Slot.bytes_write (k := k) (.inr (.inl (by cases hf <;> omega)))).symm
  | commit ss a e hs hp hcrc hlen hdata =>
    obtain ⟨rfl, hza⟩ := append_inj' hz rfl
    obtain rfl := (singleton_inj.mp hza).symm
    have hl := ((hg.hdr ss a hs h hh).resolve_left fun hd => by simp [hp] at hd).2
    by_cases hnil : a.recs = []
    · obtain ⟨xs, hbody, hpre, -, -⟩ := hl
      rw [hnil, prefix_nil] at hpre
      rw [hpre, body_nil] at hbody
      exact .inl ⟨if_pos hnil, hbody⟩
    · refine .inr ⟨by simp [hnil], hl.congr (prefix_append _ _) (fun _ => hnil) rfl ?_
        fun i _ hi => ?_⟩
      · rw [show (a.push e).next = a.next + 16 + e.2.length + 1 from rfl]
        omega
      · exact (Slot.bytes_write (k := .id) (.inr (.inl hi))).symm
  | create no hp hmin hno hnil hlast =>
    obtain ⟨-, hza⟩ := append_inj' hz rfl
    obtain rfl := singleton_inj.mp hza
    cases hh
  | begin ss a e hs hp he hr hf => exact .inr ⟨by simp, hidle hp _ z hz h hh⟩
  | number ss a b hs hp hb =>
    refine .inr ⟨hne hp, ?_⟩
    rcases last_update (show v.slots = (ss ++ [a]) ++ b :: [] by simp [hs])
      (show (ss ++ [a]) ++ _ :: [] = ss' ++ [z] by simpa using hz) with ⟨rfl, hs'⟩ | ⟨ht, ss'', hs'⟩
    · exact (hidle hp _ b hs' h hh).congr prefix_rfl id rfl le_rfl (.refl _ _ _)
    · exact hidle hp _ z hs' h hh
  | remap ss a ts o hs hp ho =>
    refine .inr ⟨hne hp, ?_⟩
    rcases last_update hs hz with ⟨rfl, hs'⟩ | ⟨ht, ss'', hs'⟩
    · exact (hidle hp _ a hs' h hh).congr prefix_rfl id rfl le_rfl (.refl _ _ _)
    · exact hidle hp _ z hs' h hh

theorem Move.grown (hm : Move c v x v') (hx : x.Keeps) (hv : v.Ok) (hg : v.Grown) : v'.Grown where
  pre := hm.pre (by rintro rfl; exact hx) hg.pre
  starts := hm.starts hx hg.starts
  clean := hm.clean hx hv hg
  hdr := hm.lags hx hv hg

theorem grown_of_path {ls : List Label} (hp : Path (Move c) v ls v') (hls : ∀ x ∈ ls, x.Keeps)
    (hv : v.Ok) (hg : v.Grown) : v'.Grown := by
  have := hp.invariant (I := fun ls v => (∀ x ∈ ls, x.Keeps) → v.Ok ∧ v.Grown) (fun _ => ⟨hv, hg⟩)
    fun ls v x v' ih hm hls => by
      obtain ⟨hok, hgr⟩ := ih fun y hy => hls y (by simp [hy])
      exact ⟨hm.ok hok, hm.grown (hls x (by simp)) hok hgr⟩
  exact (this hls).2

theorem Move.started (hm : Move c v x v') (hx : x.Keeps) (hs : v.Started) : v'.Started := by
  obtain ⟨hne, hcr⟩ := hs
  cases hm with
  | removeFront | removeBack | purge | truncate => exact hx.elim
  | create no hp hmin hno hnil hlast =>
    obtain ⟨ss, a, hs⟩ := (eq_nil_or_concat' v.slots).resolve_left hne
    exact ⟨by simp, fun _ => ⟨ss, a, Slot.fresh no c.walSize v.disk.next, by simp [hs]⟩⟩
  | commit ss a e hs hp hcrc hlen hdata =>
    refine ⟨by simp, fun hc => ?_⟩
    simp only at hc
    split_ifs at hc
  | small m => exact ⟨hne, hcr⟩
  | _ => exact ⟨by simp_all, by simp_all⟩

end

/-! ## Recovery -/

section

variable {b : Region} {len off n : ℕ} {idBefore : Option ℕ} {es : List Entry}

theorem orphanAt_of_null (h : AgreeOn off (off + 8) b zero) :
    orphanAt b len off idBefore = none := by
  rw [orphanAt]
  split
  · next r hr =>
    obtain ⟨-, -, hlt, hid, -⟩ := parseRecord_eq_some hr
    rw [read_congr h, zero_read] at hid
    have h0 : r.logId = 0 := by
      have := congrArg ofBe hid
      rw [ofBe_toBe (by norm_num at hlt ⊢; exact hlt)] at this
      exact this.symm.trans (by decide)
    rw [if_pos (.inl h0)]
  · rfl

theorem orphans_of_laid {id : ℕ} (hl : Laid b off es) (hn : NumFrom (id + 1) es)
    (hok : ∀ e ∈ es, EntryOk e) (hfit : endOf off es ≤ len + 1) (hlen : len < 2 ^ 32)
    (hstop : ∀ id, orphanAt b len (endOf off es) id = none) (hfuel : es.length < n) :
    orphans b len n off (some id) = es := by
  induction es generalizing off id n with
  | nil =>
    obtain ⟨n, rfl⟩ : ∃ m, n = m + 1 := ⟨n - 1, by simp at hfuel; omega⟩
    rw [orphans, show orphanAt b len off (some id) = none from hstop _]
  | cons e es ih =>
    obtain ⟨n, rfl⟩ : ∃ m, n = m + 1 := ⟨n - 1, by simp at hfuel; omega⟩
    obtain ⟨hrec, hl'⟩ := laid_cons.mp hl
    obtain ⟨hid, hn'⟩ := numFrom_cons.mp hn
    have hle := le_endOf (off + 17 + e.2.length) es
    rw [endOf_cons] at hfit
    have hat : orphanAt b len off (some id) = some e :=
      orphanAt_recAt hrec (hok e (by simp)) (by omega) hlen (by omega) fun i hi => by
        cases hi
        exact hid
    rw [orphans, hat]
    refine congrArg (e :: ·) (ih hl' ?_ (fun x hx => hok x (by simp [hx])) hfit hstop ?_)
    · rw [hid]
      exact hn'
    · simpa using hfuel

end

/-- The fields of the file are those of its records. -/
def WalFile.Describes (f : WalFile) (d : WalDisk) : Prop :=
  f.stored d = [] ∧ Vacant f.toHeader ∨
    ∃ ino, d.lookup f.walNo = some ino ∧
      Holds (d.inode ino).bytes f.lenMax f.toHeader offsetLogs (f.stored d)

/-- The header of the last file is that of no data, but a record starts one byte behind it. -/
def Ghost (d : WalDisk) : Prop :=
  ∃ f ino, (readDir d).getLast? = some f ∧ f.dataStart = none ∧
    d.lookup f.walNo = some ino ∧
    orphanAt (d.inode ino).bytes f.lenMax (offsetLogs + 1) none ≠ none

instance (d : WalDisk) : Decidable (Ghost d) :=
  decidable_of_iff (((readDir d).getLast?.any fun f => f.dataStart.isNone &&
    (d.lookup f.walNo).any fun ino =>
      (orphanAt (d.inode ino).bytes f.lenMax (offsetLogs + 1) none).isSome) = true)
    (by simp [Ghost, Option.any_eq_true, ← Option.isSome_iff_ne_none])

section

variable {c : Cfg} {v : View} {d d' : WalDev} {ss ts : List Slot} {z : Slot} {h : Header}
  {xs : List Entry} {set : WalFileSet}

theorem ghost_iff (hv : v.Ok) (hslots : v.slots = ss ++ z :: ts) (hts : ∀ b ∈ ts, b.hdr = none)
    (hz : z.hdr = some h) : Ghost v.disk ↔ h.dataStart = none ∧
      orphanAt (z.bytes v.disk) z.file.lenMax (offsetLogs + 1) none ≠ none := by
  have hread := hv.readDir
  rw [hslots, View.Ok.filterMap_found hts hz] at hread
  have hlook := hv.lookup (a := z) (by simp [hslots])
  constructor
  · rintro ⟨f, ino, hf, hs, hino, ho⟩
    rw [hread, getLast?_concat] at hf
    cases hf
    cases hlook.symm.trans hino
    exact ⟨hs, ho⟩
  · rintro ⟨hs, ho⟩
    exact ⟨⟨h, z.file.walNo, z.file.lenMax, none, none⟩, z.ino, by rw [hread, getLast?_concat],
      hs, hlook, ho⟩

theorem Slot.Sealed.describes_found {x : Slot} {f : WalFile} {dk : WalDisk} (hx : x.Sealed v.disk)
    (hok : x.Ok v.disk) (hpre : x.pre = []) (hst : x.Starts) (hf : x.found = some f)
    (hlook : dk.lookup x.file.walNo = some x.ino)
    (hino : dk.inode x.ino = v.disk.inode x.ino) : f.Describes dk := by
  have hstored := hx.stored_found hok hf hlook hino
  obtain ⟨hne, -, h, hh, hb, -⟩ := hx
  have hroot := hst.2 h hh
  rw [Slot.found, hh] at hf
  cases hf
  rw [hpre, nil_append] at hb hstored
  obtain ⟨s, hs⟩ := (body_of_ne_nil hne).mp hb
  rw [hs.start, getD_some] at hroot
  subst hroot
  refine .inr ⟨x.ino, hlook, ?_⟩
  rw [hstored, hino]
  exact hs

theorem View.Grown.recovers_iff (hg : v.Grown) (hv : v.Ok) (hslots : v.slots = ss ++ z :: ts)
    (hts : ∀ b ∈ ts, b.recs = []) (hb : Body (z.bytes v.disk) z.file.lenMax h xs)
    (hd : d.disk = v.disk) (hre : Rehead z.ino d d')
    (hfiles : set.files = ss.filterMap Slot.found ++ [z.checked v.disk h]) :
    (set.stored d'.disk = v.log ∧ ∀ f ∈ set.files, f.Describes d'.disk) ↔
      xs ++ strays (z.bytes v.disk) z.file.lenMax h = z.recs ∧
        (z.checked v.disk h).Describes d'.disk := by
  have hlog := recovered_log hv hslots hb hd hre hfiles
  have hv_log : v.log = ss.flatMap (fun x => x.pre ++ x.recs) ++ z.recs := by
    have htl : ts.flatMap Slot.recs = [] := flatMap_eq_nil_iff.mpr hts
    rw [View.log, hslots, flatMap_append, flatMap_cons, htl, append_nil]
    refine congrArg₂ _ (flatMap_congr fun x hx => ?_) rfl
    rw [hg.pre x (by simp [hslots, hx]), nil_append]
  have hsealed : ∀ f ∈ ss.filterMap Slot.found, f.Describes d'.disk := by
    intro f hf
    obtain ⟨x, hx, hxf⟩ := mem_filterMap.mp hf
    have hxv : x ∈ v.slots := by simp [hslots, hx]
    refine (hv.sealed_of_append hslots hx).describes_found (hv.slots x hxv) (hg.pre x hxv)
      (hg.starts x hxv) hxf ?_ ?_
    · rw [Disk.lookup, hre.dir, hd]
      exact hv.lookup hxv
    · rw [hre.other _ ((hv.ino_ne hslots).1 x hx), hd]
  rw [hlog, hv_log, append_right_inj, hfiles]
  simp only [mem_append, mem_singleton, or_imp, forall_and, forall_eq]
  tauto

theorem Holds.adopt {b : Region} {f : WalFile} {g : Header} {s : ℕ} {ys : List Entry}
    (hs : Holds b f.lenMax f.toHeader s xs) (hl : Holds b f.lenMax g s (xs ++ ys))
    (hid : g.idFrom = f.idFrom) :
    Holds b f.lenMax (f.adopt (endOf s xs) ys).toHeader s (xs ++ ys) := by
  rcases eq_nil_or_concat' ys with rfl | ⟨zs, y, rfl⟩
  · simpa [WalFile.adopt] using hs
  · have hnum := hl.num
    have hlast := hnum
    rw [← append_assoc] at hlast
    have hy := (numFrom_cons.mp (numFrom_append.mp hlast).2).1
    rw [hid] at hnum hy
    have hadopt : (f.adopt (endOf s xs) (zs ++ [y])).toHeader =
        ⟨f.idFrom, y.1, some s, some (endOf s (xs ++ (zs ++ [y])) - 1)⟩ := by
      simp [WalFile.adopt, hs.start, endOf_append]
    rw [hadopt]
    refine ⟨rfl, rfl, hs.le_start, hl.fits, hl.laid, hnum, ?_, hl.ok⟩
    simp only [hy, length_append, length_singleton]
    omega

theorem View.Grown.null_next (hg : v.Grown) {a : Slot} (ha : a ∈ v.slots) :
    AgreeOn a.next (a.next + 8) (a.bytes v.disk) zero := by
  intro i hlo hhi
  by_contra hne
  obtain ⟨ss, e, -, -, h1, -⟩ := hg.clean a ha i hlo hne
  omega

theorem View.Grown.strays_eq (hg : v.Grown) (hv : v.Ok) (ha : z ∈ v.slots) (hz : z.hdr = some h)
    (hb : Body (z.bytes v.disk) z.file.lenMax h xs) (hpre : xs <+: z.recs) (hne : xs ≠ []) :
    xs ++ strays (z.bytes v.disk) z.file.lenMax h = z.recs ∧
      ∀ d : WalDisk, d.lookup z.file.walNo = some z.ino →
        (∀ hi, AgreeOn offsetLogs hi (z.bytes v.disk) (d.inode z.ino).bytes) →
        (z.checked v.disk h).Describes d := by
  have hok := hv.slots z ha
  have hst := hg.starts z ha
  obtain ⟨ys, hys⟩ := hpre
  have hrne : z.recs ≠ [] := by rw [← hys]; simp [hne]
  -- in memory and on disk the data starts at the first record
  obtain ⟨s, hs⟩ := (body_of_ne_nil hne).mp hb
  obtain ⟨t, ht⟩ := (body_of_ne_nil hrne).mp hok.body
  have hs0 : s = offsetLogs := by have := hst.2 h hz; rwa [hs.start] at this
  have ht0 : t = offsetLogs := by have := hst.1; rwa [ht.start] at this
  subst hs0 ht0
  have hend := add_le_endOf offsetLogs hne
  have hnext : z.next = endOf offsetLogs z.recs := ht.next rfl hrne
  have hfrom : h.scanFrom = endOf offsetLogs xs := by
    rw [Header.scanFrom, hs.stop]
    simp only [map_some, getD_some]
    omega
  have hids := hs.ids
  have hlaid := ht.laid
  have hnum := ht.num
  rw [← hys] at hlaid hnum
  have hfrom' : z.file.idFrom = h.idFrom := by
    obtain ⟨e, xs', rfl⟩ := exists_cons_of_ne_nil hne
    exact (numFrom_cons.mp hnum).1.symm.trans (numFrom_cons.mp hs.num).1
  have hstray : strays (z.bytes v.disk) z.file.lenMax h = ys := by
    have hend' : endOf (endOf offsetLogs xs) ys = z.next := by rw [← endOf_append, hys, hnext]
    have hlen := ht.fits
    have hle := add_length_le_endOf (endOf offsetLogs xs) ys
    rw [← hnext] at hlen
    rw [strays, hfrom, Header.lastId, hs.stop, map_some]
    refine orphans_of_laid (laid_append.mp hlaid).2 ?_
      (fun e he => ht.ok e (by rw [← hys]; simp [he])) (by rw [hend']; exact hlen) hok.lenMax_lt
      (fun id => orphanAt_of_null (by rw [hend']; exact hg.null_next ha)) (by omega)
    rw [hids, ← hfrom']
    exact (numFrom_append.mp hnum).2
  refine ⟨by rw [hstray, hys], fun d hlook hbytes => .inr ⟨z.ino, ?_, ?_⟩⟩
  · rw [Slot.checked, WalFile.adopt_walNo]
    exact hlook
  · have hstored : (z.checked v.disk h).stored d =
        xs ++ strays (z.bytes v.disk) z.file.lenMax h :=
      WalFile.stored_adopt (f := z.opened h) hlook hok.lt_max hb (hbytes _)
    have hl' : Holds (z.bytes v.disk) z.file.lenMax z.file.toHeader offsetLogs (xs ++ ys) := by
      rw [hys]
      exact ht
    rw [hstored, Slot.checked, WalFile.adopt_lenMax, hstray, hfrom]
    exact (hs.adopt (f := z.opened h) hl' hfrom').congr ((hbytes _).mono le_rfl le_rfl)

theorem Vacant.strays_eq_nil {b : Region} {len : ℕ} (hv : Vacant h) :
    strays b len h = [] ↔ orphanAt b len (offsetLogs + 1) none = none := by
  rw [Hiqlite.Wal.strays_eq_nil, Header.scanFrom, Header.lastId, hv.stop]
  rfl

theorem Vacant.not_describes {dk dk' : WalDisk} (hv : Vacant h) (hok : z.Ok dk)
    (hne : strays (z.bytes dk) z.file.lenMax h ≠ []) (hlook : dk'.lookup z.file.walNo = some z.ino)
    (hbytes : ∀ hi, AgreeOn offsetLogs hi (z.bytes dk) (dk'.inode z.ino).bytes) :
    ¬ (z.checked dk h).Describes dk' := by
  have hstored : (z.checked dk h).stored dk' = [] ++ strays (z.bytes dk) z.file.lenMax h :=
    WalFile.stored_adopt (f := z.opened h) hlook hok.lt_max (body_nil.mpr hv) (hbytes _)
  have hstart : (z.checked dk h).dataStart = some (offsetLogs + 1) := by
    obtain ⟨xs, x, hx⟩ := (eq_nil_or_concat' _).resolve_left hne
    rw [Slot.checked, hx, Header.scanFrom, hv.stop]
    simp [WalFile.adopt, Slot.opened, hv.start]
  rintro (⟨hnil, -⟩ | ⟨ino, -, hs⟩)
  · rw [hstored, nil_append] at hnil
    exact hne hnil
  · have := hs.start
    rw [hstart] at this
    simp at this

/-- **What a kill leaves to be recovered** while nothing was removed: all records, unless the header
of a first record is due, or the bytes behind an empty header happen to be a record. -/
theorem View.Grown.recovers (hg : v.Grown) (hst : v.Started) (hv : v.Ok) (hd : d.disk = v.disk)
    (hrel : d.Reliable) :
    ∃ set d', recover c d = (.ok set, d') ∧
      ((set.stored d'.disk = v.log ∧ ∀ f ∈ set.files, f.Describes d'.disk) ↔
        v.phase ≠ .due ∧ ¬ Ghost v.disk) := by
  obtain ⟨ss, a, hs⟩ := (eq_nil_or_concat' v.slots).resolve_left hst.1
  have hlast := hv.last ss a hs
  -- whenever the header of the last readable file knows a record, all of them are recovered
  have hfull : ∀ {ss ts : List Slot} {z : Slot} {h : Header} {xs : List Entry},
      v.slots = ss ++ z :: ts → (∀ b ∈ ts, b.hdr = none ∧ b.recs = []) → z.hdr = some h →
      Body (z.bytes v.disk) z.file.lenMax h xs → xs <+: z.recs → xs ≠ [] → v.phase ≠ .due →
      ∃ set d', recover c d = (.ok set, d') ∧
        ((set.stored d'.disk = v.log ∧ ∀ f ∈ set.files, f.Describes d'.disk) ↔
          v.phase ≠ .due ∧ ¬ Ghost v.disk) := by
    intro ss ts z h xs hs hts hz hb hpre hne hph
    have hzv : z ∈ v.slots := by simp [hs]
    obtain ⟨set, d', hrec, hre, hfiles⟩ :=
      recover_spec (c := c) hv hs (fun b hb => (hts b hb).1) hz hb hd hrel
    obtain ⟨hstray, hdesc⟩ := hg.strays_eq hv hzv hz hb hpre hne
    refine ⟨set, d', hrec, iff_of_true ?_ ⟨hph, fun hgh => ?_⟩⟩
    · refine (hg.recovers_iff hv hs (fun b hb => (hts b hb).2) hb hd hre hfiles).mpr
        ⟨hstray, hdesc d'.disk ?_ fun hi => ?_⟩
      · rw [Disk.lookup, hre.dir, hd]
        exact hv.lookup hzv
      · have := hre.bytes hi
        rwa [hd] at this
    · obtain ⟨s, hs'⟩ := (body_of_ne_nil hne).mp hb
      have := ((ghost_iff hv hs (fun b hb => (hts b hb).1) hz).mp hgh).1
      rw [hs'.start] at this
      cases this
  by_cases hcr : v.phase = .created
  · -- the file was just created, and recovery works on the one before
    obtain ⟨ss, b, a, hs⟩ := hst.2 hcr
    have hs' : v.slots = ss ++ b :: [a] := hs
    have hlast := hv.last (ss ++ [b]) a (by simp [hs])
    rw [hcr] at hlast
    obtain ⟨hne, -, h, hh, hb, -⟩ := hv.sealed_of_append
      (show v.slots = (ss ++ [b]) ++ a :: [] by simp [hs]) (x := b) (by simp)
    rw [hg.pre b (by simp [hs]), nil_append] at hb
    exact hfull hs' (by simpa using ⟨hlast.2.2.1, hlast.1⟩) hh hb prefix_rfl hne (by simp [hcr])
  obtain ⟨h, hh⟩ : ∃ h, a.hdr = some h := by
    refine isSome_iff_exists.mp ?_
    cases hp : v.phase with
    | idle | due => rw [hp] at hlast; exact hlast.2
    | writing e => rw [hp] at hlast; exact hlast.1.2
    | created => exact absurd hp hcr
  rcases hg.hdr ss a hs h hh with ⟨hdue, hvac⟩ | ⟨hph, xs, hb, hpre, hne, -⟩
  · -- the record without a header is not found, or not where it is
    have hb : Body (a.bytes v.disk) a.file.lenMax h [] := body_nil.mpr hvac
    obtain ⟨set, d', hrec, hre, hfiles⟩ := recover_spec (c := c) hv hs (by simp) hh hb hd hrel
    refine ⟨set, d', hrec, iff_of_false (fun hall => ?_) fun hc => hc.1 hdue⟩
    obtain ⟨hstray, hdesc⟩ := (hg.recovers_iff hv hs (by simp) hb hd hre hfiles).mp hall
    rw [hdue] at hlast
    refine hvac.not_describes (hv.slots a (by simp [hs])) ?_ ?_ (fun hi => ?_) hdesc
    · rw [nil_append] at hstray
      rw [hstray]
      exact ne_nil_of_length_pos (by rw [hlast.1]; exact Nat.one_pos)
    · rw [Disk.lookup, hre.dir, hd]
      exact hv.lookup (by simp [hs])
    · have := hre.bytes hi
      rwa [hd] at this
  · by_cases hnil : a.recs = []
    · rw [hnil, prefix_nil] at hpre
      rw [hpre] at hb
      have hvac := body_nil.mp hb
      obtain ⟨set, d', hrec, hre, hfiles⟩ := recover_spec (c := c) hv hs (by simp) hh hb hd hrel
      refine ⟨set, d', hrec, (hg.recovers_iff hv hs (by simp) hb hd hre hfiles).trans ?_⟩
      rw [hnil, nil_append, ghost_iff hv hs (by simp) hh, hvac.strays_eq_nil]
      have hiff : orphanAt (a.bytes v.disk) a.file.lenMax (offsetLogs + 1) none = none ↔
          v.phase ≠ .due ∧ ¬ (h.dataStart = none ∧
            orphanAt (a.bytes v.disk) a.file.lenMax (offsetLogs + 1) none ≠ none) := by
        simp [hph, hvac.start]
      rw [← hiff]
      refine ⟨fun h => h.1, fun h => ⟨h, .inl ?_⟩⟩
      · rw [Slot.checked, hvac.strays_eq_nil.mpr h]
        exact ⟨by simp [WalFile.adopt, WalFile.stored, Slot.opened, hvac.start], hvac⟩
    · exact hfull hs (by simp) hh hb hpre (hne hnil) hph

end

end Hiqlite.Wal
