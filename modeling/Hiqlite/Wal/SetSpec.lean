import Hiqlite.Wal.FileSpec

/-!
# W9 — what the operations of the file set do

Each operation is taken from the files `l` to the files it leaves behind, in an environment that
may fail any system call.

* **`addFile_spec`**, **`rollOver_spec`**.
-/

namespace Hiqlite.Wal

open List Exec WalFile

variable [Crc]

namespace Slot

def flushed (a : Slot) : Slot :=
  { a with safe := a.recs.length, hdr := some a.file.toHeader, pre := [] }

def withMap (a : Slot) : Slot := { a with file := { a.file with mmapMut := some a.ino } }

def noMap (a : Slot) : Slot := { a with file := { a.file with mmapMut := none } }

def born (no len ino : ℕ) : Slot := { fresh no len ino with hdr := some Header.unused }

def numbered (id : ℕ) (a : Slot) : Slot :=
  { a with file := { a.file with idFrom := id, idUntil := id } }

end Slot

section

variable {c : Cfg} {P : Label → Prop} {v0 : View} {d0 d : WalDev} {r : ℕ × ℕ} {X : Stop → Prop}
  {ss ts l : List Slot} {a : Slot}

namespace At

theorem header_flush (h : At c P v0 d0 (ss ++ a :: ts) r d)
    (hP : Label.Plain ≤ P) (hm : a.file.mmapMut.isSome) :
    wp (do updateHeader; flush)
      (fun _ s => s.1 = a.file ∧ At c P v0 d0 (ss ++ a.flushed :: ts) r s.2)
      (fun e s => Fails c P v0 d0 X e s.2) (a.file, d) := by
  have hmut := h.mmapMut (by simp) hm
  have ha := h.slot (a := a) (by simp)
  have hlen := ha.offsetLogs_le_len
  obtain ⟨v, ht, hv, hp, hr⟩ := h
  have t1 := ht.event (.header v ss a ts hv (.inl hp)) (hP _ trivial)
  rw [wp_bind, wp_updateHeader hmut hlen, wp_flush hmut]
  split_ifs with hf
  · exact At.fails ⟨_, t1, rfl, rfl, hr⟩ hf
  · have t2 := t1.tick.event (.flush _ ss { a with hdr := some a.file.toHeader, pre := [] } ts rfl
      rfl rfl) (hP _ trivial)
    exact ⟨rfl, _, t2, rfl, rfl, hr⟩

theorem withMap_eq (h : At c P v0 d0 l r d) (ha : a ∈ l)
    (hm : a.file.mmapMut.isSome) : a.withMap = a := by
  rw [Slot.withMap, ← h.mmapMut ha hm]

theorem openMmapMut (h : At c P v0 d0 (ss ++ a :: ts) r d) (hP : Label.Plain ≤ P) : wp openMmapMut
      (fun _ s => s.1 = a.withMap.file ∧ At c P v0 d0 (ss ++ a.withMap :: ts) r s.2)
      (fun e s => Fails c P v0 d0 X e s.2) (a.file, d) := by
  rw [wp_openMmapMut (h.lookup (by simp))]
  split_ifs with hm hf
  · rw [h.withMap_eq (by simp) hm]
    exact ⟨rfl, h⟩
  · exact h.fails hf
  · refine ⟨rfl, h.tick.silent rfl (hP .remap trivial) fun v hv hp _ _ => ?_⟩
    exact .remap v ss a ts (some a.ino) hv hp (by simp)

theorem dropMap (h : At c P v0 d0 (ss ++ a :: ts) r d) (hP : Label.Plain ≤ P) :
    At c P v0 d0 (ss ++ a.noMap :: ts) r d :=
  h.silent rfl (hP .remap trivial) fun v hv hp _ _ => .remap v ss a ts none hv hp (by simp)

theorem lookup_none (h : At c P v0 d0 l r d) {no : ℕ}
    (hlast : ∀ ss a, l = ss ++ [a] → no = a.file.walNo + 1) : d.disk.lookup no = none := by
  obtain ⟨v, hok, hv, -, hd⟩ := h.view
  have hlt : ∀ x ∈ v.slots, x.file.walNo < no := by
    intro x hx
    obtain ⟨ss, a, hl⟩ := eq_nil_or_concat' l |>.resolve_left (by
      rintro rfl
      rw [hv] at hx
      simp at hx)
    have hw := hok.walNo_lt
    rw [hv, hl, pairwise_append] at hw
    have hno := hlast ss a hl
    rw [hv, hl] at hx
    rcases mem_append.mp hx with hx | hx
    · have := hw.2.2 x hx a (by simp)
      omega
    · rw [mem_singleton.mp hx]
      omega
  rw [← hd, Disk.lookup, hok.dir, lookup_eq_none_iff]
  intro p hp
  obtain ⟨x, hx, rfl⟩ := mem_map.mp hp
  have := hlt x hx
  simp; omega

theorem new_eq (h : At c P v0 d0 l r d) {no : ℕ} (hno : no < 10 ^ 16) (ino : ℕ) :
    WalFile.new no 0 0 c.walSize = .ok (Slot.fresh no c.walSize ino).file := by
  rw [WalFile.new, if_neg h.min.not_gt, if_neg hno.not_ge]
  rfl

theorem createFile (h : At c P v0 d0 l r d) (hP : Label.Plain ≤ P)
    {no : ℕ} (hno : no < 10 ^ 16) (hnil : l = [] → no = 1)
    (hlast : ∀ ss a, l = ss ++ [a] → no = a.file.walNo + 1 ∧ a.recs ≠ [] ∧
      a.hdr = some a.file.toHeader ∧ a.safe = a.recs.length) : wp createFile
      (fun _ s => At c P v0 d0 (l ++ [Slot.born no c.walSize d.disk.next]) r s.2)
      (fun e s => Fails c P v0 d0 X e s.2) ((Slot.fresh no c.walSize d.disk.next).file, d) := by
  rw [wp_createFile (h.lookup_none fun ss a hl => (hlast ss a hl).1)]
  obtain ⟨v, ht, hv, hp, hr⟩ := h
  have t1 := ht.tick.event (.create v no hp ht.min hno (fun hn => hnil (by rw [← hv, hn]))
    fun ss a hl => hlast ss a (by rw [← hv, hl])) (hP _ trivial)
  have hnext : v.disk.next = d.disk.next := by rw [ht.disk]
  rw [hnext] at t1
  have t2 := t1.tick.event (.header _ v.slots (Slot.fresh no c.walSize d.disk.next) [] rfl
    (.inr ⟨.inr rfl, rfl⟩)) (hP _ trivial)
  split_ifs with h1
  · exact ht.fails h1
  · simp only
    split_ifs with h2 h3
    · exact t1.fails h2
    · exact t2.fails h3
    · exact ⟨_, t2.tick, by rw [← hv]; rfl, rfl, hr⟩

end At

def nextNo (l : List Slot) : ℕ := (l.getLast?.map fun a => a.file.walNo + 1).getD 1

omit [Crc] in
theorem nextNo_concat (ss : List Slot) (a : Slot) : nextNo (ss ++ [a]) = a.file.walNo + 1 := by
  simp [nextNo]

namespace WalFileSet

variable {s : WalFileSet} {α : Type}

variable {x : FileM α} {Q : α → WalFileSet × WalDev → Prop} {E : Stop → WalFileSet × WalDev → Prop}
  {f : WalFile}

section

omit [Crc]

theorem wp_onFile {i : ℕ} (hf : s.files[i]? = some f) : wp (onFile i x) Q E (s, d) ↔
      wp x (fun r p => Q r ({ s with files := s.files.set i p.1 }, p.2))
        (fun e p => E e ({ s with files := s.files.set i p.1 }, p.2)) (f, d) := by
  rcases hx : x (f, d) with ⟨r, f', d'⟩
  cases r with
  | ok r =>
    rw [wp_of_ok hx, wp_of_ok (a := r)]
    simp [onFile, hf, hx]
  | error e =>
    rw [wp_of_error hx, wp_of_error (e := e)]
    simp [onFile, hf, hx]

theorem wp_onActive {fs : List WalFile} (hf : s.files = fs ++ [f])
    (ha : s.active = some fs.length) : wp (onActive x) Q E (s, d) ↔
      wp x (fun r p => Q r ({ s with files := fs ++ [p.1] }, p.2))
        (fun e p => E e ({ s with files := fs ++ [p.1] }, p.2)) (f, d) := by
  simp only [onActive, wp_bind, wp_get, ha, unwrap_some, wp_pure]
  rw [wp_onFile (f := f) (by simp [hf])]
  simp [hf, ha]

theorem wp_withFile : wp (withFile f x) Q E (s, d) ↔
      wp x (fun r p => Q r (s, p.2)) (fun e p => E e (s, p.2)) (f, d) := by
  rcases hx : x (f, d) with ⟨r, f', d'⟩
  cases r with
  | ok r =>
    rw [wp_of_ok hx, wp_of_ok (a := r)]
    simp [withFile, hx]
  | error e =>
    rw [wp_of_error hx, wp_of_error (e := e)]
    simp [withFile, hx]

@[simp] theorem wp_modifySet {g : WalFileSet → WalFileSet} {Q : Unit → WalFileSet × WalDev → Prop} :
    wp (modifySet g) Q E (s, d) ↔ Q () (g s, d) := Iff.rfl

end

/-- **`add_file`** behind a file that is sealed, or into an empty set. -/
theorem addFile_spec (h : At c P v0 d0 l r d) (hP : Label.Plain ≤ P)
    (hs : s.files = l.map Slot.file) (hX : 10 ^ 16 ≤ nextNo l → X (.panic .sliceIndex))
    (hlast : ∀ ss a, l = ss ++ [a] → a.recs ≠ [] ∧ a.hdr = some a.file.toHeader ∧
      a.safe = a.recs.length) : wp (addFile c.walSize)
      (fun _ t => t.1.files = (l ++ [Slot.born (nextNo l) c.walSize d.disk.next]).map Slot.file ∧
        (l = [] → t.1.active = some 0) ∧
        At c P v0 d0 (l ++ [Slot.born (nextNo l) c.walSize d.disk.next]) r t.2)
      (fun e t => Fails c P v0 d0 X e t.2) (s, d) := by
  have hno : (s.files.getLast?.map fun w => addU64 w.walNo 1).getD 1 = nextNo l := by
    rcases eq_nil_or_concat' l with rfl | ⟨ss, a, rfl⟩
    · simp [hs, nextNo]
    · have := (h.slot (a := a) (by simp)).no_lt
      simp only [hs, map_append, map_cons, map_nil, getLast?_append_cons,
        getLast?_singleton, Option.map_some, Option.getD_some, nextNo_concat]
      exact addU64_of_lt (by omega)
  simp only [addFile, wp_bind, wp_get, hno]
  by_cases hlt : nextNo l < 10 ^ 16
  · rw [h.new_eq hlt d.disk.next, lift_ok, wp_pure, wp_bind, wp_withFile]
    refine wp_imp (h.createFile hP hlt (fun hn => by simp [hn, nextNo])
      fun ss a hl => ⟨by rw [hl, nextNo_concat], hlast ss a hl⟩) (fun _ t ht => ?_)
    simp only [wp_bind, wp_modifySet, wp_ite, wp_pure]
    split_ifs with h1
    · exact ⟨by simp [hs, Slot.born], fun _ => trivial, ht⟩
    · exact ⟨by simp [hs, Slot.born], fun hl => absurd (by simp [hl, nextNo]) h1, ht⟩
  · have hnew : new (nextNo l) 0 0 c.walSize = .error (.panic .sliceIndex) := by
      rw [new, if_neg h.min.not_gt, if_pos (by omega)]
    simp only [hnew, lift_error, wp_stop]
    obtain ⟨v, ht, -⟩ := h
    exact ⟨⟨v, ht⟩, .inl (hX (by omega))⟩

def rolled (c : Cfg) (ss : List Slot) (a : Slot) (ino : ℕ) : List Slot :=
  ss ++ [a.flushed.noMap,
    ((Slot.born (a.file.walNo + 1) c.walSize ino).withMap).numbered (a.file.idUntil + 1)]

theorem rollOver_spec (h : At c P v0 d0 (ss ++ [a]) r d)
    (hP : Label.Plain ≤ P) (hP' : P .number) (hs : s.files = (ss ++ [a]).map Slot.file)
    (hact : s.active = some ss.length)
    (hX : X (.panic .sliceIndex)) (hm : a.file.mmapMut.isSome) (hne : a.recs ≠ []) :
    wp (rollOver c.walSize)
      (fun _ t => ∃ ino, t.1.files = (rolled c ss a ino).map Slot.file ∧
        t.1.active = some (ss.length + 1) ∧ At c P v0 d0 (rolled c ss a ino) r t.2)
      (fun e t => Fails c P v0 d0 X e t.2) (s, d) := by
  have ha := h.slot (a := a) (by simp)
  rw [map_append, map_singleton] at hs
  rw [rollOver, wp_bind, wp_onActive hs (by simpa using hact), ← bind_assoc',
    wp_bind]
  refine wp_imp (h.header_flush hP hm) ?_
  rintro - ⟨f, d1⟩ ⟨hf, h1⟩
  simp only at hf h1
  subst hf
  have h2 := h1.dropMap hP
  simp only [wp_bind, wp_modifyFile, wp_get, wp_pure]
  have hnext : nextNo (ss ++ [a.flushed.noMap]) = a.file.walNo + 1 := nextNo_concat _ _
  refine wp_imp (addFile_spec (X := X) h2 hP (by simp [Slot.flushed, Slot.noMap])
    (fun _ => hX) fun ss' b hb => ?_) ?_
  · obtain ⟨-, hb⟩ := append_inj' hb rfl
    cases hb
    exact ⟨hne, rfl, rfl⟩
  rintro - ⟨t, d2⟩ ⟨hf2, -, h3⟩
  simp only at hf2 h3
  rw [hnext] at hf2 h3
  have hadd : addU64 a.file.idUntil 1 = a.file.idUntil + 1 := by
    obtain ⟨s0, hs0⟩ := (body_of_ne_nil hne).mp ha.body
    have := hs0.idUntil_lt hne
    rw [u64Max] at this
    exact addU64_of_lt (by omega)
  have hf3 : t.files = (ss ++ [a.flushed.noMap]).map Slot.file ++
      [(Slot.born (a.file.walNo + 1) c.walSize d1.disk.next).file] := by
    rw [hf2, map_append, map_singleton]
  rw [wp_bind, wp_modifySet, hadd,
    wp_onActive (s := ⟨some (t.files.length - 1), t.files⟩) hf3 (by simp [hf3]), wp_bind]
  refine wp_imp (h3.openMmapMut hP) ?_
  rintro - ⟨g, d3⟩ ⟨hg, h4⟩
  simp only at hg h4
  rw [wp_modifyFile]
  refine ⟨d1.disk.next, ?_, by simp [hf3], h4.silent rfl hP' fun v hv hp _ _ => ?_⟩
  · rw [hg]
    simp [rolled, Slot.numbered, Slot.withMap]
  · exact .number v ss a.flushed.noMap _ (by rw [hv]; simp) hp rfl

end WalFileSet

end

end Hiqlite.Wal
