import Hiqlite.Wal.SetSpec

/-!
# W10 — what a removal does

`shift_delete_logs` removes whole files from one end and then moves the start or the end of the
data of the file that stays there. All of it is a path of moves, also if a system call fails in
the middle.

* **`shiftDeleteLogs_purge`**, **`shiftDeleteLogs_truncate`**.
-/

namespace Hiqlite.Wal

open List Exec WalFile

variable [Crc]

variable {c : Cfg} {P : Label → Prop} {v0 : View} {d0 d : WalDev} {r : ℕ × ℕ} {X : Stop → Prop}
  {ss ts l : List Slot} {a : Slot} {s : WalFileSet}

namespace WalFileSet

theorem removeFile_spec (h : At c P v0 d0 (ss ++ a :: ts) r d)
    (hP : Label.Plain ≤ P) (hP' : P (.event (.remove a.file.walNo)))
    (hend : ss = [] ∨ ts = []) (hr : ∀ e ∈ a.recs, r.1 ≤ e.1 ∧ e.1 < r.2) :
    wp (removeFile a.file) (fun _ t => t.1 = s ∧ At c P v0 d0 (ss ++ ts) r t.2)
      (fun e t => Fails c P v0 d0 X e t.2) (s, d) := by
  have hlook := h.lookup (a := a) (by simp)
  have hok := h.slot (a := a) (by simp)
  have hmut := h.mmapMut (a := a) (by simp)
  obtain ⟨v, ht, hv, hp, hreq⟩ := h
  have hvok := ht.ok
  have hlt : a.ino < v.disk.next := hvok.lt a (by rw [hv]; simp)
  have hlen := hok.offsetLogs_le_len
  simp only [removeFile, wp_bind, wp_get, wp_attempt, wp_withFile, hlook,
    Option.isNone_some, Bool.false_eq_true, if_false, wp_onDev, Dev.wp_sys, lift_error,
    lift_ok, wp_stop, wp_pure]
  split_ifs with hf
  · -- the file stays, but its header may be written
    rw [ht.fault] at hf
    by_cases hm : a.file.mmapMut.isSome
    · have t1 := ht.tick.event (.header v ss a ts hv (.inl hp)) (hP _ trivial)
      rw [wp_drop_some (hmut hm) (by simpa using hlen)]
      simp only
      split_ifs with hf'
      · exact t1.fails hf'
      · have t2 := t1.tick.event (.flush _ ss { a with hdr := some a.file.toHeader, pre := [] } ts
          rfl rfl rfl) (hP _ trivial)
        exact ⟨⟨_, t2⟩, .inr ⟨d.calls, by simp, hf⟩⟩
    · rw [wp_drop_none (by simpa using hm)]
      exact ⟨⟨_, ht.tick⟩, .inr ⟨d.calls, by simp, hf⟩⟩
  · have hmove : Move c v (.event (.remove a.file.walNo)) { v with
        slots := ss ++ ts
        disk := (Event.remove a.file.walNo : WalEvent).apply v.disk } := by
      have hr' : ∀ e ∈ a.recs, v.Requested e := fun e he => by
        rw [View.Requested, hreq]
        exact hr e he
      rcases hend with rfl | rfl
      · exact .removeFront v a ts (by simpa using hv) hp hr'
      · simpa using Move.removeBack v ss a (by simpa using hv) hp hr'
    have t1 := ht.tick.event hmove hP'
    have hne : ∀ x ∈ ss ++ ts, x.ino ≠ a.ino := by
      obtain ⟨h1, h2⟩ := hvok.ino_ne hv
      exact fun x hx => (mem_append.mp hx).elim (h1 x) (h2 x)
    by_cases hm : a.file.mmapMut.isSome
    · have t2 := t1.event (.writeStale _ a.ino .header 0 (buildHeader a.file.toHeader) hp hne (by simp)
        hlt) (hP _ trivial)
      rw [wp_drop_some (hmut hm) (by simpa using hlen)]
      simp only
      split_ifs with hf'
      · exact t2.fails hf'
      · exact ⟨trivial, _, t2.tick.event (.flushStale _ a.ino hp hne) (hP _ trivial), rfl, hp, hreq⟩
    · rw [wp_drop_none (by simpa using hm)]
      exact ⟨trivial, _, t1, rfl, hp, hreq⟩

section

variable (hP : Label.Plain ≤ P) (hP' : ∀ no, P (.event (.remove no)))
  (n : ℕ) (h : At c P v0 d0 l r d) (hs : s.files = l.map Slot.file) (hn : l.length ≤ n)
include hP hP' n h hs hn

theorem purgeLoop_spec {k : ℕ}
    (hr : ∀ a ∈ l, a.file.idUntil < k → ∀ e ∈ a.recs, r.1 ≤ e.1 ∧ e.1 < r.2) : wp (purgeLoop k n)
      (fun _ t => ∃ j, t.1.files = (l.drop j).map Slot.file ∧ t.1.active = s.active ∧
        At c P v0 d0 (l.drop j) r t.2 ∧ (∀ a ∈ l.take j, a.file.idUntil < k) ∧
        ∀ a ∈ (l.drop j).head?, k ≤ a.file.idUntil)
      (fun e t => Fails c P v0 d0 X e t.2) (s, d) := by
  induction n generalizing l s d with
  | zero =>
    obtain rfl : l = [] := length_eq_zero_iff.mp (by omega)
    exact ⟨0, by simpa using hs, rfl, h, by simp, by simp⟩
  | succ n ih =>
    cases l with
    | nil =>
      rw [purgeLoop, wp_bind, wp_get]
      simp only [hs, map_nil, wp_pure]
      exact ⟨0, rfl, trivial, h, by simp, by simp⟩
    | cons a l =>
      rw [purgeLoop, wp_bind, wp_get]
      simp only [hs, map_cons, wp_ite, wp_bind, wp_modifySet, wp_pure]
      split_ifs with hlt
      · refine wp_imp (removeFile_spec (show At c P v0 d0 ([] ++ a :: l) r d from h) hP
          (hP' _) (.inl rfl) (hr a (by simp) hlt)) ?_
        rintro - ⟨t, d1⟩ ⟨rfl, h1⟩
        rw [nil_append] at h1
        refine wp_imp (ih h1 rfl (by simpa using hn) fun b hb => hr b (by simp [hb])) ?_
        rintro - ⟨t, d2⟩ ⟨j, h2, h3, h4, h5, h6⟩
        refine ⟨j + 1, h2, h3, h4, fun b hb => ?_, h6⟩
        rcases mem_cons.mp (by simpa using hb) with rfl | hb
        · exact hlt
        · exact h5 b hb
      · refine ⟨0, by simp, trivial, h, by simp, fun b hb => ?_⟩
        obtain rfl : a = b := by simpa using hb
        omega

theorem truncateLoop_spec {k : ℕ}
    (hr : ∀ a ∈ l, k < a.file.idFrom → ∀ e ∈ a.recs, r.1 ≤ e.1 ∧ e.1 < r.2) : wp (truncateLoop k n)
      (fun _ t => ∃ l1 l2, l = l1 ++ l2 ∧ t.1.files = l1.map Slot.file ∧ t.1.active = s.active ∧
        At c P v0 d0 l1 r t.2 ∧ (∀ a ∈ l2, k < a.file.idFrom) ∧
        ∀ a ∈ l1.getLast?, a.file.idFrom ≤ k)
      (fun e t => Fails c P v0 d0 X e t.2) (s, d) := by
  induction n generalizing l s d with
  | zero =>
    obtain rfl : l = [] := length_eq_zero_iff.mp (by omega)
    exact ⟨[], [], rfl, by simpa using hs, rfl, h, by simp, by simp⟩
  | succ n ih =>
    rcases eq_nil_or_concat' l with rfl | ⟨l, a, rfl⟩
    · rw [truncateLoop, wp_bind, wp_get]
      simp only [hs, map_nil, getLast?_nil, wp_pure]
      exact ⟨[], [], rfl, rfl, trivial, h, by simp, by simp⟩
    · rw [truncateLoop, wp_bind, wp_get]
      simp only [hs, map_append, map_cons, map_nil, getLast?_append,
        getLast?_singleton, Option.some_or, wp_ite, wp_bind, wp_modifySet,
        wp_pure, dropLast_concat]
      split_ifs with hlt
      · refine wp_imp (removeFile_spec h hP (hP' _) (.inr rfl)
          (hr a (by simp) hlt)) ?_
        rintro - ⟨t, d1⟩ ⟨rfl, h1⟩
        rw [append_nil] at h1
        refine wp_imp (ih h1 rfl (by simpa using hn) fun b hb => hr b (by simp [hb])) ?_
        rintro - ⟨t, d2⟩ ⟨l1, l2, rfl, h2, h3, h4, h5, h6⟩
        refine ⟨l1, l2 ++ [a], by simp, h2, h3, h4, fun b hb => ?_, h6⟩
        rcases mem_append.mp hb with hb | hb
        · exact h5 b hb
        · rw [mem_singleton.mp hb]
          exact hlt
      · refine ⟨l ++ [a], [], by simp, by simp, trivial, h, by simp, fun b hb => ?_⟩
        obtain rfl : a = b := by simpa using hb
        omega

end

theorem refill_spec (h : At c P v0 d0 [] r d) (hP : Label.Plain ≤ P)
    (hs : s.files = []) : wp (refill c.walSize)
      (fun _ t => ∃ ino, t.1.files = [(Slot.born 1 c.walSize ino).withMap].map Slot.file ∧
        At c P v0 d0 [(Slot.born 1 c.walSize ino).withMap] r t.2)
      (fun e t => Fails c P v0 d0 X e t.2) (s, d) := by
  simp only [refill, wp_bind, wp_get, hs, isEmpty_nil, if_true]
  refine wp_imp (addFile_spec (X := X) h hP (by simpa using hs)
    (fun hc => by norm_num [nextNo] at hc) (by simp)) ?_
  rintro - ⟨t, d1⟩ ⟨hf, -, h1⟩
  simp only at hf h1
  rw [wp_onFile (f := (Slot.born 1 c.walSize d.disk.next).file) (by rw [hf]; rfl)]
  refine wp_imp (At.openMmapMut (show At c P v0 d0
    ([] ++ Slot.born 1 c.walSize d.disk.next :: []) r d1 from h1) hP) ?_
  rintro - ⟨f, d2⟩ ⟨hf', h2⟩
  exact ⟨d.disk.next, by rw [hf]; simp only at hf'; rw [hf']; rfl, h2⟩

end WalFileSet

structure Slot.Same (a b : Slot) : Prop where
  ino : b.ino = a.ino
  no : b.file.walNo = a.file.walNo
  len : b.file.lenMax = a.file.lenMax
  mapped : a.file.mmapMut.isSome → b.file.mmapMut.isSome

omit [Crc] in
theorem Slot.Same.refl (a : Slot) : a.Same a := ⟨rfl, rfl, rfl, id⟩

def Slot.purged (a : Slot) (h : Header) (j : ℕ) : Slot :=
  { a with
    file := { a.file with toHeader := h }
    recs := a.recs.drop j
    safe := a.safe - j
    pre := a.pre ++ a.recs.take j }

def Slot.cut (a : Slot) (h : Header) (j : ℕ) : Slot :=
  { a with
    file := { a.file with toHeader := h }
    recs := a.recs.take j
    safe := min a.safe j }

namespace WalFileSet

/-- In a mapped file, the record `k` is found behind those before it. -/
theorem readLogs_mapped {k : ℕ} (h : At c P v0 d0 (ss ++ a.withMap :: ts) r d) (hne : a.recs ≠ [])
    (h1 : a.file.idFrom ≤ k) (h2 : k ≤ a.file.idUntil) :
    ∃ s m l, Holds (d.disk.inode a.ino).bytes a.file.lenMax a.file.toHeader s a.recs ∧
      a.withMap.file.readLogs d.disk k k none =
        .ok (endOf s (a.recs.take (k - a.file.idFrom)), m, l) := by
  have ha := h.slot (a := a.withMap) (by simp)
  obtain ⟨s, hs⟩ := (body_of_ne_nil (show a.withMap.recs ≠ [] from hne)).mp ha.body
  have hrd : a.withMap.file.Readable d.disk a.ino := ⟨by rw [ha.mmap]; rfl, ha.len⟩
  have htake : truncate k a.withMap.recs = a.recs.take (k - a.file.idFrom) := hs.num.truncate_eq
  rw [← htake]
  exact ⟨s, _, _, hs, hrd.readLogs_holds ha.lenMax_lt hs h1 le_rfl h2⟩

theorem purgeFront_spec {k : ℕ} (h : At c P v0 d0 (a :: ts) r d)
    (hP : Label.Plain ≤ P) (hk : a.recs ≠ [] → k ≤ a.file.idUntil)
    (hP' : a.recs ≠ [] → a.file.idFrom < k → P .purge)
    (hr : ∀ e ∈ a.recs, e.1 < k → r.1 ≤ e.1 ∧ e.1 < r.2) : wp (purgeFront k)
      (fun _ t => ∃ b : Slot, t.1 = b.file ∧ a.Same b ∧ b.recs = purge k a.recs ∧
        (b.file.mmapMut.isSome ∨ b = a) ∧ At c P v0 d0 (b :: ts) r t.2)
      (fun e t => Fails c P v0 d0 X e t.2) (a.file, d) := by
  have ha := h.slot (a := a) (by simp)
  simp only [purgeFront, wp_bind, wp_get, wp_ite, wp_pure]
  by_cases hlt : a.file.idFrom < k
  swap
  · rw [if_neg (by omega)]
    refine ⟨a, rfl, .refl a, (purge_eq_self fun e he => ?_).symm, .inr rfl, h⟩
    have := (ha.body.num.mem_bounds he).1
    omega
  rcases ha.body with ⟨hnil, hv⟩ | ⟨hne, s0, hs0⟩
  · rw [if_neg (by simp [hv.stop])]
    exact ⟨a, rfl, .refl a, by simp [hnil], .inr rfl, h⟩
  · have hk := hk hne
    rw [if_pos ⟨hlt, by simp [hs0.stop]⟩]
    refine wp_imp (At.openMmapMut (show At c P v0 d0 ([] ++ a :: ts) r d from h) hP) ?_
    rintro - ⟨f, d1⟩ ⟨hf, h1⟩
    simp only at hf h1
    subst hf
    obtain ⟨s1, m, l, hs1, hread⟩ := readLogs_mapped h1 hne hlt.le hk
    have hids := hs1.ids
    simp only [wp_bind, wp_get, hread, lift_ok, wp_pure, wp_modifyFile]
    have hd := hs1.drop (show k - a.file.idFrom < a.recs.length by omega)
    rw [Nat.add_sub_cancel' hlt.le] at hd
    have hne' : a.recs.drop (k - a.file.idFrom) ≠ [] := by
      rw [ne_eq, drop_eq_nil_iff]
      omega
    refine ⟨a.withMap.purged ⟨k, a.file.idUntil,
        some (endOf s1 (a.recs.take (k - a.file.idFrom))), a.file.dataEnd⟩ (k - a.file.idFrom), rfl,
      ⟨rfl, rfl, rfl, fun _ => rfl⟩, hs1.num.purge_eq.symm, .inl rfl,
      h1.silent rfl (hP' hne hlt) fun v hv hp hreq hdisk =>
        .purge v a.withMap ts _ (k - a.file.idFrom) s1 hv hp hne'
          ((body_of_ne_nil hne').mpr ⟨endOf s1 (a.recs.take (k - a.file.idFrom)), ?_⟩) hs1.start rfl
          rfl rfl fun e he => ?_⟩
    · rw [Slot.bytes, hdisk]
      exact hd
    · rw [View.Requested, hreq]
      refine hr e (mem_of_mem_take he) ?_
      rw [show a.withMap.recs.take (k - a.file.idFrom) = truncate k a.recs from
        hs1.num.truncate_eq.symm] at he
      exact (mem_truncate.mp he).2

/-- The back file that stays ends before the record `k` now. -/
theorem truncateBack_spec {k : ℕ} (h : At c P v0 d0 (ss ++ [a]) r d)
    (hP : Label.Plain ≤ P) (hk : a.file.idFrom ≤ k) (hP' : P .truncate)
    (hr : ∀ e ∈ a.recs, k ≤ e.1 → r.1 ≤ e.1 ∧ e.1 < r.2) : wp (truncateBack k)
      (fun _ t => ∃ b : Slot, t.1 = b.file ∧ a.Same b ∧ b.recs = truncate k a.recs ∧
        b.file.idFrom = a.file.idFrom ∧
        (b.file.mmapMut.isSome ∨ a.file.idFrom = k ∨ a.file.idUntil < k) ∧
        At c P v0 d0 (ss ++ [b]) r t.2)
      (fun e t => Fails c P v0 d0 X e t.2) (a.file, d) := by
  have ha := h.slot (a := a) (by simp)
  have hnum := ha.body.num
  simp only [truncateBack, wp_bind, wp_get, wp_ite, wp_pure]
  split_ifs with h1 h2
  · -- the file keeps its number, but no record
    have hnil : truncate k a.recs = [] := truncate_eq_nil fun e he => by
      have := (hnum.mem_bounds he).1
      omega
    rw [wp_modifyFile]
    refine ⟨a.cut ⟨a.file.idFrom, k, none, none⟩ 0, rfl, ⟨rfl, rfl, rfl, id⟩,
      by rw [hnil]; rfl, rfl, .inr (.inl h1), h.silent rfl hP' fun v hv hp hreq _ =>
        .truncate v ss a _ 0 hv hp (body_nil.mpr ⟨rfl, rfl, h1.symm, ?_⟩) rfl (by simp)
          fun e he => ?_⟩
    · exact (ha.body.headerFits ha.lenMax_lt).idFrom
    · rw [View.Requested, hreq]
      have := (hnum.mem_bounds he).1
      exact hr e he (by omega)
  · have hne : a.recs ≠ [] := by
      rcases ha.body with ⟨-, hv⟩ | ⟨hne, -⟩
      · have := hv.ids
        omega
      · exact hne
    refine wp_imp (h.openMmapMut hP) ?_
    rintro - ⟨f, d1⟩ ⟨hf, h3⟩
    simp only at hf h3
    subst hf
    obtain ⟨s1, m, l, hs1, hread⟩ := readLogs_mapped h3 hne hk h2
    have hids := hs1.ids
    simp only [wp_bind, wp_get, hread, lift_ok, wp_pure, wp_modifyFile]
    have ht := hs1.take (show 0 < k - a.file.idFrom by omega)
      (show k - a.file.idFrom ≤ a.recs.length by omega)
    have hpos := hs1.le_start
    have hle := le_endOf s1 (a.recs.take (k - a.file.idFrom))
    have hlast := hs1.endOf_take_lt (show k - a.file.idFrom < a.recs.length by omega)
    have hend : addU32 (endOf s1 (a.recs.take (k - a.file.idFrom))) (2 ^ 32 - 1) =
        endOf s1 (a.recs.take (k - a.file.idFrom)) - 1 := by
      rw [offsetLogs] at hpos
      exact addU32_pred (by omega) (hlast.trans ha.lenMax_lt)
    rw [Nat.add_sub_cancel' hk] at ht
    rw [hend]
    refine ⟨a.withMap.cut ⟨a.file.idFrom, k - 1, a.file.dataStart,
        some (endOf s1 (a.recs.take (k - a.file.idFrom)) - 1)⟩ (k - a.file.idFrom), rfl,
      ⟨rfl, rfl, rfl, fun _ => rfl⟩, hs1.num.truncate_eq.symm, rfl, .inl rfl,
      h3.silent rfl hP' fun v hv hp hreq hdisk =>
        .truncate v ss a.withMap _ (k - a.file.idFrom) hv hp ((body_of_ne_nil ?_).mpr ⟨s1, ?_⟩) rfl
          (fun _ => rfl) fun e he => ?_⟩
    · rw [ne_eq, take_eq_nil_iff]
      intro hc
      exact hc.elim (by omega) hne
    · rw [Slot.bytes, hdisk]
      exact ht
    · rw [View.Requested, hreq]
      refine hr e (mem_of_mem_drop he) ?_
      rw [show a.withMap.recs.drop (k - a.file.idFrom) = purge k a.withMap.recs from
        hs1.num.purge_eq.symm] at he
      exact (mem_purge.mp he).2
  · have hself : truncate k a.recs = a.recs := truncate_eq_self fun e he => by
      rcases ha.body with ⟨hn, -⟩ | ⟨-, s1, hs1⟩
      · simp [hn] at he
      · have := (hnum.mem_bounds he).2
        have := hs1.ids
        omega
    exact ⟨a, rfl, .refl a, hself.symm, rfl, .inr (.inr (by omega)), h⟩

end WalFileSet

/-- The files that a removal leaves behind: some of those before it, or a new one. -/
def Shrunk (c : Cfg) (l l' : List Slot) : Prop :=
  ∃ m, (m <:+: l ∨ ∃ ino, m = [(Slot.born 1 c.walSize ino).withMap]) ∧ Forall₂ Slot.Same m l'

/-- The set shows the files `l'`, which a removal from the files `l` leaves behind with the records
`L`. -/
structure Left (c : Cfg) (l l' : List Slot) (L : List Entry) (s : WalFileSet) : Prop where
  files : s.files = l'.map Slot.file
  ne_nil : l' ≠ []
  recs : l'.flatMap Slot.recs = L
  shrunk : Shrunk c l l'

omit [Crc] in
theorem Left.setActive {l' : List Slot} {L : List Entry} (h : Left c l l' L s) :
    Left c l l' L { s with active := some (s.files.length - 1) } ∧
      some (s.files.length - 1) = some (l'.length - 1) :=
  ⟨{ h with }, by rw [h.files, length_map]⟩

def LastMapped (l : List Slot) : Prop := ∀ a ∈ l.getLast?, a.file.mmapMut.isSome

/-- A file before the last one that is not mapped has its header on disk. -/
def Backed (l : List Slot) : Prop :=
  ∀ a ∈ l.dropLast, a.file.mmapMut = none → a.hdr = some a.file.toHeader

def Numbered (l : List Slot) : Prop := ∀ a ∈ l.tail.getLast?, ¬ a.Unused

section

omit [Crc]

@[simp] theorem lastMapped_concat : LastMapped (ss ++ [a]) ↔ a.file.mmapMut.isSome := by
  simp [LastMapped]

theorem numbered_concat : Numbered (ss ++ [a]) ↔ (ss ≠ [] → ¬ a.Unused) := by
  cases ss <;> simp [Numbered]

theorem backed_concat : Backed (ss ++ [a]) ↔
    ∀ b ∈ ss, b.file.mmapMut = none → b.hdr = some b.file.toHeader := by
  rw [Backed, dropLast_concat]

theorem Backed.of_suffix {b : Slot} (h : Backed l) (hs : a :: ts <:+ l)
    (hb : b.file.mmapMut.isSome ∨ b = a) : Backed (b :: ts) := by
  have hsub : ∀ x ∈ (a :: ts).dropLast, x ∈ l.dropLast := by
    obtain ⟨p, rfl⟩ := hs
    rw [dropLast_append_of_ne_nil (by simp)]
    exact fun x hx => mem_append_right _ hx
  intro x hx hm
  cases ts with
  | nil => simp at hx
  | cons y ts =>
    rcases mem_cons.mp hx with rfl | hx
    · rcases hb with hb | rfl
      · rw [hm] at hb
        exact absurd hb (by simp)
      · exact h x (hsub x (by simp)) hm
    · exact h x (hsub x (mem_cons_of_mem _ hx)) hm

theorem forall₂_same (l : List Slot) : Forall₂ Slot.Same l l := by
  induction l with
  | nil => exact .nil
  | cons a l ih => exact .cons (.refl a) ih

end

theorem At.purge_recs {k j : ℕ} (h : At c P v0 d0 l r d)
    (h1 : ∀ a ∈ l.take j, a.file.idUntil < k) (h2 : ∀ a ∈ (l.drop j).head?, k ≤ a.file.idUntil) :
    purge k (l.flatMap Slot.recs) =
      purge k ((l.drop j).head?.toList.flatMap Slot.recs) ++
        (l.drop j).tail.flatMap Slot.recs := by
  obtain ⟨v, hok, hv, -, -⟩ := h.view
  conv_lhs => rw [← take_append_drop j l, flatMap_append, purge_append]
  have hnil : purge k ((l.take j).flatMap Slot.recs) = [] := purge_eq_nil fun e he => by
    obtain ⟨a, ha, he⟩ := mem_flatMap.mp he
    have h3 := ((hok.slots a (by rw [hv]; exact mem_of_mem_take ha)).mem_bounds he).2
    have h4 := h1 a ha
    omega
  rw [hnil, nil_append]
  cases hd : l.drop j with
  | nil => rfl
  | cons a ts =>
    have hv' : v.slots = l.take j ++ a :: ts := by rw [hv, ← hd, take_append_drop]
    have hself : purge k (ts.flatMap Slot.recs) = ts.flatMap Slot.recs :=
      purge_eq_self fun e he => by
        obtain ⟨b, hb, he⟩ := mem_flatMap.mp he
        have h3 := h2 a (by simp [hd])
        have h4 := hok.before hv' hb fun hc => by simp [hc.1] at he
        have h5 := ((hok.slots b (by rw [hv']; simp [hb])).mem_bounds he).1
        omega
    simp [hself]

namespace WalFileSet

variable {k : ℕ}

theorem purgeFiles_spec (h : At c P v0 d0 l r d) (hP : Label.Plain ≤ P)
    (hP' : ∀ no, P (.event (.remove no)))
    (hP'' : ∀ a ∈ l, a.recs ≠ [] → k ≤ a.file.idUntil → P .purge) (hs : s.files = l.map Slot.file)
    (hr : ∀ a ∈ l, ∀ e ∈ a.recs, e.1 < k → r.1 ≤ e.1 ∧ e.1 < r.2) :
    wp (do purgeLoop k s.files.length; refill c.walSize; onFile 0 (purgeFront k))
      (fun _ t => ∃ l' : List Slot, Left c l l' (purge k (l.flatMap Slot.recs)) t.1 ∧
        At c P v0 d0 l' r t.2 ∧ (LastMapped l → LastMapped l') ∧ (Numbered l → Numbered l') ∧
        (Backed l → Backed l'))
      (fun e t => Fails c P v0 d0 X e t.2) (s, d) := by
  rw [wp_bind]
  refine wp_imp (purgeLoop_spec hP hP' _ h hs (by simp [hs]) fun a ha hlt e he =>
    hr a ha e he ?_) ?_
  · exact ((h.slot ha).mem_bounds he).2.trans_lt hlt
  rintro - ⟨t, d1⟩ ⟨j, hf, -, h1, hlt, hge⟩
  simp only at hf h1
  rw [h.purge_recs hlt hge, wp_bind]
  cases hd : l.drop j with
  | nil =>
    rw [hd] at h1 hf
    refine wp_imp (refill_spec h1 hP hf) ?_
    rintro - ⟨t, d2⟩ ⟨ino, hf', h2⟩
    simp only at hf' h2
    rw [wp_onFile (f := (Slot.born 1 c.walSize ino).withMap.file) (by rw [hf']; rfl)]
    have hnil : (Slot.born 1 c.walSize ino).withMap.recs = [] := rfl
    refine wp_imp (purgeFront_spec h2 hP (absurd hnil) (absurd hnil) (by simp [hnil])) ?_
    rintro - ⟨f, d3⟩ ⟨b, hb, hsame, hrecs, -, h3⟩
    simp only at hb h3
    subst hb
    refine ⟨[b], ⟨by rw [hf']; rfl, by simp, by simp [hrecs, hnil],
      ⟨_, .inr ⟨ino, rfl⟩, .cons hsame .nil⟩⟩, h3, fun _ x hx => ?_, fun _ => by simp [Numbered],
      fun _ => by simp [Backed]⟩
    obtain rfl : b = x := by simpa using hx
    exact hsame.mapped rfl
  | cons a ts =>
    rw [hd] at h1 hf hge
    have hal : a ∈ l := mem_of_mem_drop (by rw [hd]; simp)
    simp only [refill, wp_bind, wp_get, hf, map_cons, isEmpty_cons,
      Bool.false_eq_true, if_false, wp_pure]
    rw [wp_onFile (f := a.file) (by rw [hf]; rfl)]
    have hge' : k ≤ a.file.idUntil := hge a rfl
    refine wp_imp (purgeFront_spec h1 hP (fun _ => hge')
      (fun hne _ => hP'' a hal hne hge') (hr a hal)) ?_
    rintro - ⟨f, d3⟩ ⟨b, hb, hsame, hrecs, hbm, h3⟩
    simp only at hb h3
    subst hb
    have hsuf : a :: ts <:+ l := hd ▸ drop_suffix j l
    refine ⟨b :: ts, ⟨by rw [hf]; rfl, by simp, by simp [hrecs],
      ⟨a :: ts, .inl hsuf.isInfix, .cons hsame (forall₂_same ts)⟩⟩, h3,
      fun hm x hx => ?_, fun hn x hx => ?_, fun hk => hk.of_suffix hsuf hbm⟩
    · have hlast : l.getLast? = (a :: ts).getLast? := by
        rw [← take_append_drop j l, hd, getLast?_append_of_ne_nil _ (by simp)]
      rw [LastMapped, hlast] at hm
      cases ts with
      | nil =>
        obtain rfl : b = x := by simpa using hx
        exact hsame.mapped (hm a rfl)
      | cons y ts => exact hm x (by simpa using hx)
    · have hne : ts ≠ [] := by
        rintro rfl
        simp at hx
      have htail : l.tail = (l.take j ++ [a]).tail ++ ts := by
        conv_lhs => rw [← take_append_drop j l, hd]
        rw [show l.take j ++ a :: ts = (l.take j ++ [a]) ++ ts by simp,
          tail_append_of_ne_nil (by simp)]
      refine hn x ?_
      rw [htail, getLast?_append_of_ne_nil _ hne]
      exact hx

omit [Crc] in
theorem wp_onBack {α : Type} {x : FileM α} {Q : α → WalFileSet × WalDev → Prop}
    {E : Stop → WalFileSet × WalDev → Prop} {fs : List WalFile} {f : WalFile}
    (hf : s.files = fs ++ [f]) : wp (onBack x) Q E (s, d) ↔
      wp x (fun r p => Q r ({ s with files := fs ++ [p.1] }, p.2))
        (fun e p => E e ({ s with files := fs ++ [p.1] }, p.2)) (f, d) := by
  simp only [onBack, wp_bind, wp_get]
  rw [wp_onFile (f := f) (by simp [hf])]
  simp [hf]

theorem truncateFiles_spec (h : At c P v0 d0 (a :: ts) r d)
    (hP : Label.Plain ≤ P) (hP' : ∀ no, P (.event (.remove no))) (hP'' : P .truncate)
    (hs : s.files = (a :: ts).map Slot.file) (hk : a.file.idFrom < k) (hu : Numbered (a :: ts))
    (hr : ∀ x ∈ a :: ts, ∀ e ∈ x.recs, k ≤ e.1 → r.1 ≤ e.1 ∧ e.1 < r.2) :
    wp (do truncateLoop k s.files.length; refill c.walSize; onBack (truncateBack k))
      (fun _ t => ∃ l' : List Slot,
        Left c (a :: ts) l' (truncate k ((a :: ts).flatMap Slot.recs)) t.1 ∧
        At c P v0 d0 l' r t.2 ∧ Numbered l' ∧ (Backed (a :: ts) → Backed l') ∧
        (LastMapped (a :: ts) → (∀ b ∈ (a :: ts).dropLast, b.file.idFrom ≠ k) → LastMapped l'))
      (fun e t => Fails c P v0 d0 X e t.2) (s, d) := by
  obtain ⟨v, hok, hv, -, -⟩ := h.view
  rw [wp_bind]
  refine wp_imp (truncateLoop_spec hP hP' _ h hs (by simp [hs]) fun b hb hlt e he =>
    hr b hb e he ?_) ?_
  · exact (hlt.trans_le ((h.slot hb).mem_bounds he).1).le
  rintro - ⟨t, d1⟩ ⟨l1, l2, hl, hf, -, h1, hgt, hle⟩
  simp only at hf h1
  -- the front file is never removed
  obtain ⟨l1, b, rfl⟩ := (eq_nil_or_concat' l1).resolve_left (by
    rintro rfl
    have := hgt a (by rw [← nil_append l2, ← hl]; simp)
    omega)
  have hbl : b ∈ a :: ts := by rw [hl]; simp
  have hbk : b.file.idFrom ≤ k := hle b (by simp)
  rw [append_assoc] at hl
  have hvs : v.slots = l1 ++ b :: l2 := by rw [hv, hl]; rfl
  have hbu : l1 ≠ [] → ¬ b.Unused := fun hne => by
    cases l2 with
    | nil =>
      obtain ⟨x, m, rfl⟩ := exists_cons_of_ne_nil hne
      obtain ⟨-, rfl⟩ := cons_eq_cons.mp hl
      exact hu b getLast?_concat
    | cons y l2 => exact fun hc => (hok.link hvs).1.1 hc.1
  rw [map_append, map_singleton] at hf
  have hne : t.files.isEmpty = false := by rw [hf]; simp
  simp only [refill, wp_bind, wp_get, hne, Bool.false_eq_true, if_false, wp_pure]
  rw [wp_onBack hf]
  refine wp_imp (truncateBack_spec h1 hP hbk hP'' (hr b hbl)) ?_
  rintro - ⟨f, d2⟩ ⟨b', hb', hsame, hrecs, hid, hmap, h2⟩
  simp only at hb' h2
  subst hb'
  refine ⟨l1 ++ [b'], ⟨by simp, by simp, ?_, ?_⟩, h2, numbered_concat.mpr fun hne hc => ?_,
    fun hbk => backed_concat.mpr fun x hx => hbk x ?_, fun hm hn x hx => ?_⟩
  · have hself : truncate k (l1.flatMap Slot.recs) = l1.flatMap Slot.recs :=
      truncate_eq_self fun e he => by
        obtain ⟨x, hx, he'⟩ := mem_flatMap.mp he
        obtain ⟨p, q, hpq⟩ := append_of_mem hx
        have h3 := hok.before (show v.slots = p ++ x :: (q ++ b :: l2) by rw [hvs, hpq]; simp)
          (show b ∈ q ++ b :: l2 by simp) (hbu (ne_nil_of_mem hx))
        have h4 := ((hok.slots x (by rw [hvs]; simp [hx])).mem_bounds he').2
        omega
    have hnil : truncate k (l2.flatMap Slot.recs) = [] := truncate_eq_nil fun e he => by
      obtain ⟨x, hx, he⟩ := mem_flatMap.mp he
      have h3 := ((hok.slots x (by rw [hvs]; simp [hx])).mem_bounds he).1
      have h4 := hgt x hx
      omega
    rw [hl]
    simp [hself, hnil, hrecs]
  · refine ⟨l1 ++ [b], .inl ⟨[], l2, by rw [hl]; simp⟩, ?_⟩
    exact rel_append (forall₂_same l1) (.cons hsame .nil)
  · obtain ⟨m, p, rfl⟩ := (eq_nil_or_concat' l1).resolve_left hne
    have h3 := (hok.link (show v.slots = m ++ p :: b :: l2 by rw [hvs]; simp)).2.id.resolve_right
      (hbu hne)
    rw [← hid, hc.2] at h3
    simp [Header.unused] at h3
  · rw [hl, dropLast_append_of_ne_nil (by simp)]
    exact mem_append_left _ hx
  · obtain rfl : b' = x := by simpa using hx
    cases l2 with
    | nil => exact hsame.mapped (hm b (by rw [hl]; simp))
    | cons y l2 =>
      have h3 := hgt y (by simp)
      have h4 := (hok.link hvs).2.id.resolve_right fun hc => by
        rw [hc.2] at h3
        simp [Header.unused] at h3
      have h5 := hn b (by rw [hl]; simp)
      exact hmap.resolve_right (by omega)

theorem shiftDeleteLogs_purge (h : At c P v0 d0 l (0, k) d)
    (hP : Label.Shrink ≤ P) (hs : s.files = l.map Slot.file) (hne : l ≠ [])
    : wp (shiftDeleteLogs 0 k c.walSize)
      (fun _ t => ∃ l' : List Slot, Left c l l' (purge k (l.flatMap Slot.recs)) t.1 ∧
        t.1.active = some (l'.length - 1) ∧ At c P v0 d0 l' (0, k) t.2 ∧
        (LastMapped l → LastMapped l') ∧ (Numbered l → Numbered l') ∧ (Backed l → Backed l'))
      (fun e t => Fails c P v0 d0 X e t.2) (s, d) := by
  obtain ⟨a, ts, rfl⟩ := exists_cons_of_ne_nil hne
  have hcond : (s.files.head?.any fun f => decide (0 ≤ f.idFrom)) = true := by simp [hs]
  rw [shiftDeleteLogs, wp_bind, shiftFiles, wp_bind, wp_get]
  simp only [hcond, if_true]
  refine wp_imp (purgeFiles_spec h (fun x hx => hP x hx.shrink)
    (fun no => hP (.event (.remove no)) trivial) (fun _ _ _ _ => hP .purge trivial) hs
    fun _ _ _ _ hlt => ⟨Nat.zero_le _, hlt⟩) ?_
  rintro - ⟨t, d1⟩ ⟨l', hleft, h1, hmap⟩
  exact ⟨l', hleft.setActive.1, hleft.setActive.2, h1, hmap⟩

theorem shiftDeleteLogs_truncate (h : At c P v0 d0 (a :: ts) (k, u64Max) d)
    (hP : ∀ x : Label, x.Shrink → x ≠ .purge → P x) (hs : s.files = (a :: ts).map Slot.file)
    (hu : Numbered (a :: ts) ∨ k ≤ a.file.idFrom) :
    wp (shiftDeleteLogs k u64Max c.walSize)
      (fun _ t => ∃ l' : List Slot,
        Left c (a :: ts) l' (truncate k ((a :: ts).flatMap Slot.recs)) t.1 ∧
        t.1.active = some (l'.length - 1) ∧ At c P v0 d0 l' (k, u64Max) t.2 ∧
        (Numbered (a :: ts) → Numbered l') ∧ (Backed (a :: ts) → Backed l') ∧
        (LastMapped (a :: ts) → (∀ b ∈ (a :: ts).dropLast.tail, b.file.idFrom ≠ k) → LastMapped l'))
      (fun e t => Fails c P v0 d0 X e t.2) (s, d) := by
  have hP1 : Label.Plain ≤ P := fun x hx => hP x hx.shrink (by rintro rfl; exact hx)
  have hP2 : ∀ no, P (.event (.remove no)) := fun no => hP (.event (.remove no)) trivial (by simp)
  have hok : ∀ x ∈ a :: ts, x.Ok d.disk := fun x hx => h.slot hx
  have hid : ∀ x ∈ a :: ts, ∀ e ∈ x.recs, e.1 < u64Max :=
    fun x hx e he => ((hok x hx).body.ok e he).id_lt
  rw [shiftDeleteLogs, wp_bind, shiftFiles, wp_bind, wp_get]
  by_cases hk : k ≤ a.file.idFrom
  · -- everything is removed, from the front
    have hcond : (s.files.head?.any fun f => decide (k ≤ f.idFrom)) = true := by simp [hs, hk]
    have hge : ∀ x ∈ a :: ts, ∀ e ∈ x.recs, k ≤ e.1 := by
      intro x hx e he
      have h1 := ((hok x hx).mem_bounds he).1
      rcases mem_cons.mp hx with rfl | hx'
      · omega
      · obtain ⟨v, hv, hvs, -, -⟩ := h.view
        have h2 := hv.before (show v.slots = [] ++ a :: ts from hvs) hx' fun hc => by
          simp [hc.1] at he
        have h3 := (hok a (by simp)).body.idFrom_le
        omega
    have hrecs : purge u64Max ((a :: ts).flatMap Slot.recs) =
        truncate k ((a :: ts).flatMap Slot.recs) := by
      rw [purge_eq_nil, truncate_eq_nil]
      · intro e he
        obtain ⟨x, hx, he⟩ := mem_flatMap.mp he
        exact hge x hx e he
      · intro e he
        obtain ⟨x, hx, he⟩ := mem_flatMap.mp he
        exact hid x hx e he
    simp only [hcond, if_true]
    refine wp_imp (purgeFiles_spec h hP1 hP2 (fun x hx hne hle => ?_) hs
      fun x hx e he _ => ⟨hge x hx e he, hid x hx e he⟩) ?_
    · obtain ⟨s1, hs1⟩ := (body_of_ne_nil hne).mp (hok x hx).body
      exact absurd hle (by have := hs1.idUntil_lt hne; omega)
    rintro - ⟨t, d1⟩ ⟨l', hleft, h1, hmap, hnum, hbk⟩
    rw [hrecs] at hleft
    exact ⟨l', hleft.setActive.1, hleft.setActive.2, h1, hnum, hbk, fun hm _ => hmap hm⟩
  · have hcond : (s.files.head?.any fun f => decide (k ≤ f.idFrom)) = false := by simp [hs, hk]
    have hcond' : (s.files.getLast?.all fun f => decide (f.idUntil ≤ u64Max)) = true := by
      obtain ⟨ss, z, hz⟩ := (eq_nil_or_concat' (a :: ts)).resolve_left (by simp)
      have hzok := hok z (by rw [hz]; simp)
      have := (hzok.body.headerFits hzok.lenMax_lt).idUntil
      have hle : z.file.idUntil ≤ u64Max := by rw [u64Max]; omega
      rw [hs, hz]
      simp [hle]
    simp only [hcond, hcond', Bool.false_eq_true, if_false, if_true]
    refine wp_imp (truncateFiles_spec h hP1 hP2 (hP .truncate trivial (by simp)) hs
      (by omega) (hu.resolve_right hk) fun x hx e he hle => ⟨hle, hid x hx e he⟩) ?_
    rintro - ⟨t, d1⟩ ⟨l', hleft, h1, hnum, hbk, hmap⟩
    refine ⟨l', hleft.setActive.1, hleft.setActive.2, h1, fun _ => hnum, hbk, fun hm hid => ?_⟩
    refine hmap hm fun b hb => ?_
    cases ts with
    | nil => cases hb
    | cons z ts =>
      rcases mem_cons.mp hb with rfl | hb
      · omega
      · exact hid b hb

/-- **A truncation that does nothing**: an unused file behind others ends it before it starts. -/
theorem shiftDeleteLogs_stuck (hs : s.files = (a :: ts).map Slot.file) (hu : ¬ Numbered (a :: ts))
    (hk : a.file.idFrom < k) {Q : Unit → WalFileSet × WalDev → Prop}
    {E : Stop → WalFileSet × WalDev → Prop} : wp (shiftDeleteLogs k u64Max c.walSize) Q E (s, d) ↔
      Q () ({ s with active := some ts.length }, d) := by
  -- the last file says that it starts and ends at the id 0
  obtain ⟨z, hz, hzu⟩ : ∃ z ∈ ts.getLast?, z.Unused := by simpa [Numbered] using hu
  obtain ⟨ss, rfl⟩ := getLast?_eq_some_iff.mp hz
  have hf : s.files = (a :: ss).map Slot.file ++ [z.file] := by simp [hs]
  have hz1 : z.file.idFrom = 0 := congrArg Header.idFrom hzu.2
  have hz2 : z.file.idUntil = 0 := congrArg Header.idUntil hzu.2
  have hlast : s.files.getLast? = some z.file := by rw [hf, getLast?_concat]
  have hne : s.files.isEmpty = false := by simp [hs]
  have hloop : s.files.length = (ss.length + 1) + 1 := by simp [hf]
  have hcond : (s.files.head?.any fun f => decide (k ≤ f.idFrom)) = false := by simp [hs, hk]
  have hcond' : (s.files.getLast?.all fun f => decide (f.idUntil ≤ u64Max)) = true := by
    simp [hlast, hz2]
  rw [shiftDeleteLogs, wp_bind, shiftFiles, wp_bind, wp_get]
  simp only [hcond, hcond', Bool.false_eq_true, if_false, if_true]
  rw [wp_bind, hloop, truncateLoop, wp_bind, wp_get]
  simp only [hlast, hz1, gt_iff_lt, Nat.not_lt_zero, if_false, wp_pure]
  rw [wp_bind, refill, wp_bind, wp_get]
  simp only [hne, Bool.false_eq_true, if_false, wp_pure]
  rw [wp_onBack hf, truncateBack, wp_bind, wp_get]
  simp only [hz1, hz2]
  rw [if_neg (by omega), if_neg (by omega), wp_pure, wp_modifySet]
  simp [hf]

end WalFileSet

end Hiqlite.Wal
