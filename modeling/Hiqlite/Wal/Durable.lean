import Hiqlite.Lib.PowerLoss
import Hiqlite.Wal.FileSpec

/-!
# W19 — what the flushes make durable

* **`Move.keeps_acked`**: a flush has covered the entries the outside may rely on;
* **`Move.durable`**: since the last flush of a file, its covered records did not change, and every
  header that was written leads to all of them.
-/

namespace Hiqlite.Wal

open List Option Region
open Slot (push bytes)

/-! ## Acknowledged entries -/

/-- What an event does to the acknowledged entries. -/
def ackedStep (A : List Entry) : WalEvent → List Entry
  | .note (.callback es) => A ++ es
  | .note (.remove idFrom idUntil) => A.filter fun e => ¬ (idFrom ≤ e.1 ∧ e.1 < idUntil)
  | _ => A

/-- The entries whose callback was called and that no later request removes. -/
def acked (es : List WalEvent) : List Entry := es.foldl ackedStep []

theorem acked_concat (es : List WalEvent) (e : WalEvent) :
    acked (es ++ [e]) = ackedStep (acked es) e := by
  simp [acked]

/-- The acknowledged entries are covered by a flush, and not about to be removed. -/
def View.Acked (es : List WalEvent) (v : View) : Prop :=
  ∀ e ∈ acked es, ¬ v.Requested e ∧ ∃ a ∈ v.slots, e ∈ a.recs.take a.safe

variable [Crc]

section

variable {c : Cfg} {v v' : View} {x : Label} {es : List WalEvent}

theorem Move.safe_mem (hm : Move c v x v') (hv : v.Ok) {e : Entry} (hr : ¬ v.Requested e)
    (h : ∃ a ∈ v.slots, e ∈ a.recs.take a.safe) : ∃ a ∈ v'.slots, e ∈ a.recs.take a.safe := by
  have hupd : ∀ {ss ts : List Slot} {a : Slot} (a' : Slot), v.slots = ss ++ a :: ts →
      (e ∈ a.recs.take a.safe → e ∈ a'.recs.take a'.safe) →
      ∃ b ∈ ss ++ a' :: ts, e ∈ b.recs.take b.safe := by
    intro ss ts a a' hs himp
    obtain ⟨b, hb, he⟩ := h
    rw [hs] at hb
    rcases mem_append.mp hb with hb | hb
    · exact ⟨b, by simp [hb], he⟩
    rcases mem_cons.mp hb with rfl | hb
    · exact ⟨a', by simp, himp he⟩
    · exact ⟨b, by simp [hb], he⟩
  cases hm with
  | flush ss a ts hs hp hh =>
    exact hupd _ hs fun he => by simpa using mem_of_mem_take he
  | header ss a ts hs hp => exact hupd _ hs id
  | commit ss a e' hs hp hcrc hlen hdata =>
    refine hupd _ hs fun he => ?_
    have := (hv.slots a (by simp [hs])).safe
    simpa [push, take_append_of_le_length this] using he
  | create no hp hmin hno hnil hlast =>
    obtain ⟨b, hb, he⟩ := h
    exact ⟨b, mem_append_left _ hb, he⟩
  | removeFront a ss hs hp hreq =>
    obtain ⟨b, hb, he⟩ := h
    rw [hs] at hb
    rcases mem_cons.mp hb with rfl | hb
    · exact absurd (hreq e (mem_of_mem_take he)) hr
    · exact ⟨b, hb, he⟩
  | removeBack ss a hs hp hreq =>
    obtain ⟨b, hb, he⟩ := h
    rw [hs] at hb
    rcases mem_append.mp hb with hb | hb
    · exact ⟨b, hb, he⟩
    · rw [mem_singleton.mp hb] at he
      exact absurd (hreq e (mem_of_mem_take he)) hr
  | number ss a b hs hp hb =>
    have := hupd
      { b with file := { b.file with
        idFrom := a.file.idUntil + 1
        idUntil := a.file.idUntil + 1 } }
      (show v.slots = (ss ++ [a]) ++ b :: [] by simp [hs]) id
    simpa using this
  | remap ss a ts o hs hp ho => exact hupd _ hs id
  | purge a ss y j s hs hp hj hb hst hst' hi he hreq =>
    have := hupd
      { a with
        file := { a.file with toHeader := y }
        recs := a.recs.drop j
        safe := a.safe - j
        pre := a.pre ++ a.recs.take j }
      (show v.slots = [] ++ a :: ss by simp [hs]) fun he => ?_
    · simpa using this
    · rw [← take_append_drop j (a.recs.take a.safe), mem_append, take_take] at he
      rcases he with he | he
      · have hle : a.recs.take (min j a.safe) <+: a.recs.take j :=
          (take_prefix_take_left (by omega))
        exact absurd (hreq e (hle.subset he)) hr
      · rwa [drop_take] at he
  | truncate ss a y j hs hp hb hi hst hreq =>
    refine hupd _ hs fun he => ?_
    rw [← take_append_drop j (a.recs.take a.safe), mem_append, take_take,
      drop_take] at he
    rcases he with he | he
    · simpa [take_take, Nat.min_comm] using he
    · exact absurd (hreq e (mem_of_mem_take he)) hr
  | _ => exact h

theorem Move.request (hm : Move c v x v') :
    (∃ n, x = .event (.note n) ∧ v'.request = n.request v.request) ∨
      (∀ n, x ≠ .event (.note n)) ∧ v'.request = v.request := by
  cases hm with
  | note n hp hn => exact .inl ⟨n, rfl, rfl⟩
  | _ => exact .inr ⟨(fun n hn => by cases hn), rfl⟩

theorem Move.keeps_acked (hm : Move c v x v') (hsync : c.sync = .immediate) (hv : v.Ok)
    (h : v.Acked es) : v'.Acked (es ++ events [x]) := by
  have hkeep : ∀ e ∈ acked es, ∃ a ∈ v'.slots, e ∈ a.recs.take a.safe :=
    fun e he => hm.safe_mem hv (h e he).1 (h e he).2
  rcases hm.request with ⟨n, rfl, hreq⟩ | ⟨hn, hreq⟩
  · rw [show events [Label.event (.note n)] = [.note n] from rfl]
    intro e he
    rw [acked_concat] at he
    rw [View.Requested, hreq]
    cases n with
    | callback bs =>
      refine ⟨by simp [Note.request], ?_⟩
      rcases mem_append.mp he with he | he
      · exact hkeep e he
      · cases hm with
        | note y hp hfair =>
          obtain ⟨a, ha, hea⟩ := mem_flatMap.mp (hfair.1 e he)
          exact ⟨a, ha, by rwa [hfair.2 hsync a ha, take_length]⟩
    | remove f u =>
      obtain ⟨he, hout⟩ := mem_filter.mp he
      exact ⟨of_decide_eq_true hout, hkeep e he⟩
    | publish fs => exact ⟨(h e he).1, hkeep e he⟩
  · have hacked : acked (es ++ events [x]) = acked es := by
      cases x with
      | event e =>
        rw [show events [Label.event e] = [e] from rfl, acked_concat]
        cases e with
        | note n => exact absurd rfl (hn n)
        | _ => rfl
      | _ => rw [show events [_] = [] from rfl, append_nil]
    intro e he
    rw [hacked] at he
    rw [View.Requested, hreq]
    exact ⟨(h e he).1, hkeep e he⟩

end

/-! ## Covered records -/

namespace Slot

/-- The header leads from one of the records `ys` to all covered ones. -/
structure Leads (a : Slot) (s : ℕ) (ys : List Entry) (h : Header) : Prop where
  shaped : h.Shaped a.file.lenMax
  start : ∃ m, h.dataStart = some (endOf s (ys.take m))
  stop : ∃ e, h.dataEnd = some e ∧ endOf s (ys ++ a.recs.take a.safe) ≤ e + 1
  last : ∀ x ∈ a.recs.take a.safe, x.1 ≤ h.idUntil

/-- Since the last flush the records `ys`, which start at `s`, and the covered records behind them
did not change, and every header on disk leads to all covered ones. -/
structure Kept (M : WalDisk → Prop) (d : WalDisk) (a : Slot) (s : ℕ) (ys : List Entry) : Prop where
  start : a.file.dataStart = some (endOf s ys)
  le_start : offsetLogs ≤ s
  laid : Laid (a.bytes d) s ys
  num : ∃ k, NumFrom k ys ∧ k + ys.length = a.file.idFrom
  ok : ∀ e ∈ ys, EntryOk e
  same : ∀ m, M m →
    AgreeOn s (endOf s (ys ++ a.recs.take a.safe)) (a.bytes d) (a.bytes m)
  hdr : ∀ m, M m → ∃ h, HdrAt (a.bytes m) h ∧ a.Leads s ys h

variable {M M' : WalDisk → Prop} {d d' : WalDisk} {a b : Slot} {s : ℕ} {ys : List Entry}

omit [Crc] in
theorem endOf_take_le (s n : ℕ) (xs : List Entry) : endOf s (xs.take n) ≤ endOf s xs := by
  have := le_endOf (endOf s (xs.take n)) (xs.drop n)
  rwa [← endOf_append, take_append_drop] at this

theorem Ok.holds (h : a.Ok d) (hs : 0 < a.safe) :
    a.recs ≠ [] ∧ ∃ s, Holds (a.bytes d) a.file.lenMax a.file.toHeader s a.recs := by
  have hne : a.recs ≠ [] := ne_nil_of_length_pos (hs.trans_le h.safe)
  exact ⟨hne, (body_of_ne_nil hne).mp h.body⟩

section

variable (h : a.Kept M d s ys)
include h

theorem Kept.end_le_next (hok : a.Ok d) (hs : 0 < a.safe) :
    endOf s (ys ++ a.recs.take a.safe) ≤ a.next := by
  obtain ⟨hne, t, ht⟩ := hok.holds hs
  have hst : t = endOf s ys := some.inj (ht.start.symm.trans h.start)
  rw [ht.next rfl hne, endOf_append, ← hst]
  exact endOf_take_le _ _ _

theorem Kept.leads (hok : a.Ok d) (hs : 0 < a.safe) : a.Leads s ys a.file.toHeader := by
  obtain ⟨hne, t, ht⟩ := hok.holds hs
  have hst : t = endOf s ys := some.inj (ht.start.symm.trans h.start)
  refine ⟨hok.body.shaped hok.lenMax_lt, ⟨ys.length, by rw [take_length, h.start]⟩,
    ⟨_, ht.stop, ?_⟩, fun x hx => ?_⟩
  · have h1 := h.end_le_next hok hs
    rw [ht.next rfl hne] at h1
    omega
  · exact (hok.mem_bounds (mem_of_mem_take hx)).2

theorem Kept.advance (hM : ∀ m, M' m → m = d' ∨ M m)
    (hsame : AgreeOn s (endOf s (ys ++ a.recs.take a.safe)) (a.bytes d) (a.bytes d'))
    (hhdr : ∃ h, HdrAt (a.bytes d') h ∧ a.Leads s ys h) : a.Kept M' d' s ys := by
  have hle : endOf s ys - 1 ≤ endOf s (ys ++ a.recs.take a.safe) := by
    rw [endOf_append]
    exact (Nat.sub_le _ _).trans (le_endOf _ _)
  refine ⟨h.start, h.le_start, h.laid.congr (hsame.mono le_rfl hle), h.num, h.ok, fun m hm => ?_,
    fun m hm => ?_⟩
  · rcases hM m hm with rfl | hm
    · exact .refl _ _ _
    · exact hsame.symm.trans (h.same m hm)
  · rcases hM m hm with rfl | hm
    · exact hhdr
    · exact h.hdr m hm

theorem Kept.advance_of_agree (hM : ∀ m, M' m → m = d' ∨ M m) (hd : M d) (hok : a.Ok d)
    (hs : 0 < a.safe) (hb : AgreeOn 0 a.next (a.bytes d) (a.bytes d')) :
    a.Kept M' d' s ys := by
  refine h.advance hM (hb.mono (Nat.zero_le _) (h.end_le_next hok hs)) ?_
  obtain ⟨x, hx, hl⟩ := h.hdr d hd
  refine ⟨x, ?_, hl⟩
  rw [HdrAt, ← read_congr (hb.mono (Nat.zero_le _) ?_)]
  · exact hx
  · rw [Nat.zero_add]
    exact hok.offsetLogs_le_next

end

theorem Ok.kept_of_flush (hok : a.Ok d) (hh : a.hdr = some a.file.toHeader)
    (hs : 0 < a.recs.length) (hM : ∀ m, M m → m = d) :
    ∃ s ys, Kept M d { a with safe := a.recs.length } s ys := by
  have hne : a.recs ≠ [] := ne_nil_of_length_pos hs
  obtain ⟨s, ht⟩ := (body_of_ne_nil hne).mp hok.body
  obtain ⟨hat, hshape⟩ := hok.hdr _ hh
  refine ⟨s, [], ⟨ht.start, ht.le_start, trivial, ⟨_, trivial, rfl⟩, by simp, fun m hm => ?_,
    fun m hm => ?_⟩⟩
  · rw [hM m hm]
    exact .refl _ _ _
  · rw [hM m hm]
    refine ⟨a.file.toHeader, hat, hshape, ⟨0, ht.start⟩, ⟨_, ht.stop, ?_⟩, fun x hx => ?_⟩
    · simp only [nil_append, take_length]
      omega
    · exact (hok.mem_bounds (mem_of_mem_take hx)).2

omit [Crc] in
theorem take_append_take_drop {j n : ℕ} (h : j ≤ n) (xs : List Entry) :
    xs.take j ++ (xs.drop j).take (n - j) = xs.take n := by
  have := take_append_drop j (xs.take n)
  rwa [take_take, Nat.min_eq_left h, drop_take] at this

theorem Kept.of_prefix (h : a.Kept M d s ys) (zs : List Entry) (hino : b.ino = a.ino)
    (hlen : b.file.lenMax = a.file.lenMax) (hstart : b.file.dataStart = some (endOf s (ys ++ zs)))
    (hid : b.file.idFrom = a.file.idFrom + zs.length) (hnum : NumFrom a.file.idFrom zs)
    (hlaid : Laid (a.bytes d) (endOf s ys) zs) (hok : ∀ e ∈ zs, EntryOk e)
    (hpre : zs ++ b.recs.take b.safe <+: a.recs.take a.safe) : b.Kept M d s (ys ++ zs) := by
  have hbytes : ∀ m, b.bytes m = a.bytes m := fun m => by rw [bytes, bytes, hino]
  have hend : endOf s (ys ++ zs ++ b.recs.take b.safe) ≤ endOf s (ys ++ a.recs.take a.safe) := by
    obtain ⟨ws, hws⟩ := hpre
    rw [← hws, ← append_assoc, ← append_assoc, endOf_append s _ ws]
    exact le_endOf _ _
  obtain ⟨k, hk, hk'⟩ := h.num
  refine ⟨hstart, h.le_start, ?_, ⟨k, ?_, ?_⟩, fun e he => ?_, fun m hm => ?_, fun m hm => ?_⟩
  · rw [hbytes]
    exact laid_append.mpr ⟨h.laid, hlaid⟩
  · exact numFrom_append.mpr ⟨hk, by rwa [hk']⟩
  · rw [length_append, hid]
    omega
  · exact (mem_append.mp he).elim (h.ok e) (hok e)
  · rw [hbytes, hbytes]
    exact (h.same m hm).mono le_rfl hend
  · obtain ⟨x, hx, hl⟩ := h.hdr m hm
    obtain ⟨n, hn⟩ := hl.start
    obtain ⟨e, he, hle⟩ := hl.stop
    refine ⟨x, by rw [hbytes]; exact hx, by rw [hlen]; exact hl.shaped, ⟨min n ys.length, ?_⟩,
      ⟨e, he, hend.trans hle⟩, fun y hy => hl.last y (hpre.subset (by simp [hy]))⟩
    rw [take_append_of_le_length (Nat.min_le_right _ _), hn, ← take_eq_take_min]

theorem Kept.congr (h : a.Kept M d s ys) (hino : b.ino = a.ino)
    (hlen : b.file.lenMax = a.file.lenMax) (hstart : b.file.dataStart = a.file.dataStart)
    (hid : b.file.idFrom = a.file.idFrom) (hpre : b.recs.take b.safe <+: a.recs.take a.safe) :
    b.Kept M d s ys := by
  have := h.of_prefix [] hino hlen (by rw [hstart, append_nil]; exact h.start) (by simpa using hid)
    trivial trivial (by simp) (by simpa using hpre)
  rwa [append_nil] at this

end Slot

/-- The covered records of every file were kept since its last flush. -/
def View.Durable (base : WalDisk) (es : List WalEvent) (v : View) : Prop :=
  ∀ a ∈ v.slots, 0 < a.safe → ∃ s ys, a.Kept (Moment base es a.ino) v.disk s ys

section

variable {c : Cfg} {v v' : View} {x : Label} {es : List WalEvent} {base : WalDisk}

theorem View.Ok.mem_update {ss ts : List Slot} {a a' b : Slot} (hv : v.Ok)
    (hs : v.slots = ss ++ a :: ts) (hb : b ∈ ss ++ a' :: ts) :
    b ∈ v.slots ∧ b.ino ≠ a.ino ∨ b = a' := by
  rcases mem_append.mp hb with hb | hb
  · exact .inl ⟨by simp [hs, hb], (hv.ino_ne hs).1 b hb⟩
  rcases mem_cons.mp hb with rfl | hb
  · exact .inr rfl
  · exact .inl ⟨by simp [hs, hb], (hv.ino_ne hs).2 b hb⟩

omit [Crc] in
theorem Slot.agree_write_of_ne {b : Slot} {ino off : ℕ} {k : WriteKind} {bs : Bytes} {d : WalDisk}
    (hne : b.ino ≠ ino) : AgreeOn 0 b.next (b.bytes d)
      (b.bytes ((Event.write ino k off bs : WalEvent).apply d)) := by
  intro i _ _
  rw [bytes, bytes, apply_write_inode_of_ne _ _ _ _ _ _ hne]

omit [Crc] in
theorem Slot.agree_write_behind {a : Slot} {off : ℕ} {k : WriteKind} {bs : Bytes} {d : WalDisk}
    (hoff : a.next ≤ off) : AgreeOn 0 a.next (a.bytes d)
      (a.bytes ((Event.write a.ino k off bs : WalEvent).apply d)) := by
  intro i _ hi
  rw [bytes, bytes, apply_write_bytes_self, write_apply_of_lt (by omega)]

namespace View.Durable

variable {ss ts : List Slot} {a a' b : Slot} {j : ℕ} {y : Header}

section

variable (h : v.Durable base es) (hv : v.Ok)
include h hv

/-- A change in memory of one file. -/
theorem update (hvs : v.slots = ss ++ a :: ts)
    (ha : 0 < a'.safe → ∃ s ys, a'.Kept (Moment base es a'.ino) v.disk s ys)
    (hb : b ∈ ss ++ a' :: ts) (hs : 0 < b.safe) :
    ∃ s ys, b.Kept (Moment base es b.ino) v.disk s ys := by
  rcases hv.mem_update hvs hb with ⟨hb, -⟩ | rfl
  · exact h b hb hs
  · exact ha hs

theorem purge {t : ℕ} (ha : a ∈ v.slots) (hj : a.recs.drop j ≠ [])
    (hbd : Body (a.bytes v.disk) a.file.lenMax y (a.recs.drop j)) (hst : a.file.dataStart = some t)
    (hst' : y.dataStart = some (endOf t (a.recs.take j))) (hs : j < a.safe) :
    ∃ s ys, Slot.Kept (Moment base es a.ino) v.disk
      { a with
        file := { a.file with toHeader := y }
        recs := a.recs.drop j
        safe := a.safe - j
        pre := a.pre ++ a.recs.take j } s ys := by
  obtain ⟨s, ys, hk⟩ := h a ha (by omega)
  obtain ⟨hne, t', ht⟩ := (hv.slots a ha).holds (by omega)
  obtain rfl : t = t' := some.inj (hst.symm.trans ht.start)
  have hts : t = endOf s ys := some.inj (hst.symm.trans hk.start)
  have hlen := (hv.slots a ha).safe
  have hjl : (a.recs.take j).length = j := length_take_of_le (by omega)
  have hnum := ht.num
  have hlaid := ht.laid
  rw [← take_append_drop j a.recs] at hnum hlaid
  obtain ⟨hnum1, hnum2⟩ := numFrom_append.mp hnum
  rw [hjl] at hnum2
  refine ⟨s, ys ++ a.recs.take j, hk.of_prefix _ rfl rfl ?_ ?_ hnum1 ?_ (fun e he => ?_) ?_⟩
  · rw [endOf_append, ← hts]
    exact hst'
  · obtain ⟨e, es', he'⟩ := exists_cons_of_ne_nil hj
    have hy := hbd.num
    rw [he'] at hy hnum2
    rw [hjl]
    exact (numFrom_cons.mp hy).1.symm.trans (numFrom_cons.mp hnum2).1
  · rw [← hts]
    exact (laid_append.mp hlaid).1
  · exact ht.ok e (mem_of_mem_take he)
  · rw [Slot.take_append_take_drop hs.le]

theorem truncate (ha : a ∈ v.slots) (hi : y.idFrom = a.file.idFrom)
    (hst : a.recs.take j ≠ [] → y.dataStart = a.file.dataStart) (hs : 0 < a.safe) (hj : 0 < j) :
    ∃ s ys, Slot.Kept (Moment base es a.ino) v.disk
      { a with
        file := { a.file with toHeader := y }
        recs := a.recs.take j
        safe := min a.safe j } s ys := by
  obtain ⟨s, ys, hk⟩ := h a ha hs
  have hne := ((hv.slots a ha).holds hs).1
  refine ⟨s, ys, hk.congr rfl rfl (hst ?_) hi ?_⟩
  · simp [hne, hj.ne']
  · rw [take_take, Nat.min_eq_left (Nat.min_le_right _ _)]
    exact take_prefix_take_left (Nat.min_le_left _ _)

end

section

variable (hbase : v.disk = replay base es)
include hbase

omit [Crc] in
theorem moment (e : WalEvent) (ino : ℕ) (m : WalDisk) (hm : Moment base (es ++ [e]) ino m) :
    m = e.apply v.disk ∨ Moment base es ino m := by
  rcases moment_concat.mp hm with rfl | ⟨-, hm⟩
  · exact .inl (by rw [replay_concat, hbase])
  · exact .inr hm

theorem flush (hv : v.Ok) (ha : a ∈ v.slots) (hh : a.hdr = some a.file.toHeader)
    (hs : 0 < a.recs.length) : ∃ s ys,
      Slot.Kept (Moment base (es ++ [.flush a.ino]) a.ino) v.disk
        { a with safe := a.recs.length } s ys := by
  refine (hv.slots a ha).kept_of_flush hh hs fun m hm => ?_
  rcases moment_concat.mp hm with rfl | ⟨hne, -⟩
  · rw [replay_concat, ← hbase]
    rfl
  · exact absurd rfl hne

variable (h : v.Durable base es) (hv : v.Ok)
include h hv

/-- An event that changes nothing up to the end of the file `b`. -/
theorem quiet {e : WalEvent} (hb : b ∈ v.slots) (hs : 0 < b.safe)
    (hag : AgreeOn 0 b.next (b.bytes v.disk) (b.bytes (e.apply v.disk))) :
    ∃ s ys, b.Kept (Moment base (es ++ [e]) b.ino) (e.apply v.disk) s ys := by
  obtain ⟨s, ys, hk⟩ := h b hb hs
  exact ⟨s, ys,
    hk.advance_of_agree (moment hbase e _) (hbase ▸ moment_now) (hv.slots b hb) hs hag⟩

theorem header {e : WalEvent} (he : e = .write a.ino .header 0 (buildHeader a.file.toHeader))
    (ha : a ∈ v.slots) (hs : 0 < a.safe) : ∃ s ys, Slot.Kept (Moment base (es ++ [e]) a.ino)
      (e.apply v.disk) { a with hdr := some a.file.toHeader, pre := [] } s ys := by
  subst he
  obtain ⟨s, ys, hk⟩ := h a ha hs
  have hadv := hk.advance (moment hbase (.write a.ino .header 0 (buildHeader a.file.toHeader)) a.ino)
    (fun i hi _ => ?_) ⟨_, ?_, hk.leads (hv.slots a ha) hs⟩
  · exact ⟨s, ys, hadv.congr rfl rfl rfl rfl prefix_rfl⟩
  · have hlen := length_buildHeader a.file.toHeader
    have hle := hk.le_start
    rw [offsetLogs] at hle
    rw [bytes, bytes, apply_write_bytes_self, write_apply_of_ge (by omega)]
  · rw [HdrAt, bytes, apply_write_bytes_self]
    exact read_write_of_length (length_buildHeader _)

theorem commit {x : Entry} {e : WalEvent} (he : e = .write a.ino .id a.next (toBe 8 x.1))
    (ha : a ∈ v.slots) (hs : 0 < a.safe) :
    ∃ s ys, (a.push x).Kept (Moment base (es ++ [e]) a.ino) (e.apply v.disk) s ys := by
  subst he
  obtain ⟨s, ys, hk⟩ := quiet hbase h hv ha hs (Slot.agree_write_behind le_rfl)
  refine ⟨s, ys, hk.congr rfl rfl ?_ ?_ ?_⟩
  · simp [push, hk.start]
  · simp [push, hk.start]
  · have := (hv.slots a ha).safe
    simp [push, take_append_of_le_length this]

end

end View.Durable

theorem Move.durable (hm : Move c v x v') (hv : v.Ok) (hbase : v.disk = replay base es)
    (h : v.Durable base es) : v'.Durable base (es ++ events [x]) := by
  intro b hb hs
  cases hm with
  | note | small | flushStale => exact h.quiet hbase hv hb hs (.refl _ _ _)
  | writeStale ino k off bs hp hi hk hlt =>
    exact h.quiet hbase hv hb hs (Slot.agree_write_of_ne (hi b hb))
  | flush ss a ts hvs hp hh =>
    rcases hv.mem_update hvs hb with ⟨hb, -⟩ | rfl
    · exact h.quiet hbase hv hb hs (.refl _ _ _)
    · exact View.Durable.flush (v := v) (a := a) hbase hv (by simp [hvs]) hh hs
  | header ss a ts hvs hp =>
    rcases hv.mem_update hvs hb with ⟨hb, hne⟩ | rfl
    · exact h.quiet hbase hv hb hs (Slot.agree_write_of_ne hne)
    · exact h.header (a := a) hbase hv rfl (by simp [hvs]) hs
  | field ss a e k off bs hvs hp hf =>
    rcases hv.mem_update hvs (show b ∈ ss ++ a :: [] from hvs ▸ hb) with ⟨hb, hne⟩ | rfl
    · exact h.quiet hbase hv hb hs (Slot.agree_write_of_ne hne)
    · exact h.quiet hbase hv hb hs (Slot.agree_write_behind (by cases hf <;> omega))
  | commit ss a e hvs hp hcrc hlen hdata =>
    rcases hv.mem_update hvs hb with ⟨hb, hne⟩ | rfl
    · exact h.quiet hbase hv hb hs (Slot.agree_write_of_ne hne)
    · exact h.commit (a := a) hbase hv rfl (by simp [hvs]) hs
  | create no hp hmin hno hnil hlast =>
    rcases mem_append.mp hb with hb | hb
    · refine h.quiet hbase hv hb hs fun i _ _ => ?_
      rw [bytes, bytes, apply_create_inode_of_ne _ _ _ _ (hv.lt b hb).ne]
    · rw [mem_singleton.mp hb] at hs
      exact absurd hs (Nat.lt_irrefl 0)
  | removeFront a ss hvs hp hr =>
    exact h.quiet hbase hv (by simp [hvs, show b ∈ ss from hb]) hs (.refl _ _ _)
  | removeBack ss a hvs hp hr =>
    exact h.quiet hbase hv (by simp [hvs, show b ∈ ss from hb]) hs (.refl _ _ _)
  | begin ss a e hvs hp he hr hf =>
    rw [show events [Label.begin e] = [] from rfl, append_nil]
    exact h b hb hs
  | number ss a b' hvs hp hb' =>
    rw [show events [Label.number] = [] from rfl, append_nil]
    refine h.update hv (show v.slots = (ss ++ [a]) ++ b' :: [] by simp [hvs]) (fun hs => ?_)
      (show b ∈ (ss ++ [a]) ++ _ :: [] by simpa using hb) hs
    have := (hv.slots b' (by simp [hvs])).safe
    rw [hb', length_nil] at this
    exact absurd hs (by simp only; omega)
  | remap ss a ts o hvs hp ho =>
    rw [show events [Label.remap] = [] from rfl, append_nil]
    refine h.update hv hvs (fun hs => ?_) hb hs
    obtain ⟨s, ys, hk⟩ := h a (by simp [hvs]) hs
    exact ⟨s, ys, hk.congr rfl rfl rfl rfl prefix_rfl⟩
  | purge a ss y j t hvs hp hj hbd hst hst' hi he hr =>
    rw [show events [Label.purge] = [] from rfl, append_nil]
    refine h.update hv (show v.slots = [] ++ a :: ss by simp [hvs]) (fun hs => ?_)
      (show b ∈ [] ++ _ :: ss from hb) hs
    exact h.purge hv (by simp [hvs]) hj hbd hst hst' (by simp only at hs; omega)
  | truncate ss a y j hvs hp hbd hi hst hr =>
    rw [show events [Label.truncate] = [] from rfl, append_nil]
    refine h.update hv hvs (fun hs => ?_) hb hs
    simp only [lt_min_iff] at hs
    exact h.truncate hv (by simp [hvs]) hi hst hs.1 hs.2

end

end Hiqlite.Wal
