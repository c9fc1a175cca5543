import Hiqlite.Wal.Set

/-!
# W27 — the shallow integrity check

`WalFileSet::check_integrity` without the deep check looks at the headers only, at the first one
with other tests than at those behind it.

* **`checkIntegrity_sound_iff`**: what it leaves to the headers themselves; `unsound_headers_accepted`.
-/

namespace Hiqlite.Wal

open List Option

/-! ## Headers -/

structure WalFile.InRange (f : WalFile) : Prop where
  idFrom : f.idFrom < 2 ^ 64
  idUntil : f.idUntil < 2 ^ 64
  dataStart : ∀ s ∈ f.dataStart, s < 2 ^ 32
  dataEnd : ∀ e ∈ f.dataEnd, e < 2 ^ 32
  walNo : f.walNo < 2 ^ 64
  lenMax : f.lenMax < 2 ^ 32

/-- The data offsets of a file are both set or both unset. Where they are set, they enclose the head
of a record inside the file, and the ids are in order. -/
structure WalFile.Fitting (f : WalFile) : Prop where
  both : f.dataStart.isSome = f.dataEnd.isSome
  data : ∀ s ∈ f.dataStart, ∀ e ∈ f.dataEnd,
    offsetLogs ≤ s ∧ s + 16 ≤ e ∧ e ≤ f.lenMax ∧ f.idFrom ≤ f.idUntil

/-- The files can be trusted, only the last one may be without data, and no id is missing between
two of them. -/
structure SoundFiles (files : List WalFile) : Prop where
  fitting : ∀ f ∈ files, f.Fitting
  data : ∀ f ∈ files.dropLast, f.dataStart.isSome
  follow : files.IsChain fun f g => f.idUntil + 1 = g.idFrom

/-- What `check_integrity` does not test. -/
structure Untested (first : WalFile) (rest : List WalFile) : Prop where
  both : first.dataStart.isSome = first.dataEnd.isSome
  start : ∀ s ∈ first.dataStart, ∀ e ∈ first.dataEnd, offsetLogs ≤ s ∧ s + 16 ≤ e
  used : ∀ f ∈ rest, 0 < f.idFrom
  order : ∀ f ∈ rest, ∀ s ∈ f.dataStart, s + 16 < 2 ^ 32 ∧ f.idFrom ≤ f.idUntil
  data : ∀ f ∈ (first :: rest).dropLast, f.dataStart.isSome

/-! ## The loop -/

namespace WalFileSet

variable {walNo idUntil : ℕ} {f : WalFile} {rest : List WalFile}

theorem offsets_pass_iff (hboth : f.dataStart.isSome = f.dataEnd.isSome) :
    (¬ f.dataStart.any (· < offsetLogs) = true ∧ ¬ (f.dataStart.any fun s =>
      f.dataEnd.any fun e => s = e || addU32 s (8 + 4 + 4) > e) = true) ↔
      ∀ s ∈ f.dataStart, ∀ e ∈ f.dataEnd, offsetLogs ≤ s ∧ s ≠ e ∧ addU32 s 16 ≤ e := by
  cases hs : f.dataStart with
  | none => simp
  | some s =>
    obtain ⟨e, he⟩ : ∃ e, f.dataEnd = some e := by
      rw [← isSome_iff_exists, ← hboth, hs, isSome_some]
    simp [he]

/-- One round of the loop. -/
theorem checkHeaders_cons : checkHeaders walNo idUntil (f :: rest) = .ok () ↔
    f.dataEnd.getD 0 ≤ f.lenMax ∧ addU64 walNo 1 = f.walNo ∧
      (f.idFrom = 0 ∧ f.idUntil = 0 ∨ f.dataStart.isSome = f.dataEnd.isSome ∧
        (∀ s ∈ f.dataStart, ∀ e ∈ f.dataEnd, offsetLogs ≤ s ∧ s ≠ e ∧ addU32 s 16 ≤ e) ∧
        addU64 idUntil 1 = f.idFrom ∧ checkHeaders f.walNo f.idUntil rest = .ok ()) := by
  rw [checkHeaders]
  split_ifs with h1 h2 h3 h4 h5 h6 h7
  · exact ⟨nofun, fun h => absurd h.1 (by omega)⟩
  · exact ⟨nofun, fun h => absurd h.2.1 h2⟩
  · exact ⟨fun _ => ⟨by omega, not_not.mp h2, .inl h3⟩, fun _ => rfl⟩
  · exact ⟨nofun, fun h => absurd (h.2.2.resolve_left h3).1 h4⟩
  · refine ⟨nofun, fun h => ?_⟩
    obtain ⟨hboth, hdata, -⟩ := h.2.2.resolve_left h3
    exact absurd h5 ((offsets_pass_iff hboth).mpr hdata).1
  · refine ⟨nofun, fun h => ?_⟩
    obtain ⟨hboth, hdata, -⟩ := h.2.2.resolve_left h3
    exact absurd h6 ((offsets_pass_iff hboth).mpr hdata).2
  · exact ⟨nofun, fun h => absurd (h.2.2.resolve_left h3).2.2.1 h7⟩
  · refine ⟨fun h => ⟨by omega, not_not.mp h2, .inr ⟨not_not.mp h4, ?_, not_not.mp h7, h⟩⟩,
      fun h => (h.2.2.resolve_left h3).2.2.2⟩
    exact (offsets_pass_iff (not_not.mp h4)).mp ⟨h5, h6⟩

/-- **The whole loop**: accepted headers fit iff they are in use and meet the tests that are left
out. -/
theorem checkHeaders_fitting_iff {prev : WalFile} (hp : prev.idUntil < 2 ^ 64)
    (hr : ∀ f ∈ rest, f.InRange) (h : checkHeaders prev.walNo prev.idUntil rest = .ok ()) :
    ((∀ f ∈ rest, f.Fitting) ∧ (prev :: rest).IsChain fun f g => f.idUntil + 1 = g.idFrom) ↔
      ∀ f ∈ rest, 0 < f.idFrom ∧ ∀ s ∈ f.dataStart, s + 16 < 2 ^ 32 ∧ f.idFrom ≤ f.idUntil := by
  induction rest generalizing prev with
  | nil => simp
  | cons f rest ih =>
    obtain ⟨hlen, -, hrest⟩ := checkHeaders_cons.mp h
    have hf := hr f (by simp)
    rw [isChain_cons_cons, forall_mem_cons, forall_mem_cons]
    rcases hrest with ⟨h1, h2⟩ | ⟨hboth, hdata, hid, hrest⟩
    · -- the file is not in use: it cannot continue the ids
      constructor
      · rintro ⟨-, hchain, -⟩
        omega
      · rintro ⟨⟨hpos, -⟩, -⟩
        omega
    · have hih := ih hf.idUntil (fun g hg => hr g (by simp [hg])) hrest
      have hle : ∀ e ∈ f.dataEnd, e ≤ f.lenMax := by
        intro e he
        rwa [mem_def.mp he] at hlen
      have hmax := hf.lenMax
      constructor
      · rintro ⟨⟨hfit, hfits⟩, hchain, hchains⟩
        refine ⟨⟨by omega, fun s hs => ?_⟩, hih.mp ⟨hfits, hchains⟩⟩
        obtain ⟨e, he⟩ : ∃ e, f.dataEnd = some e := by
          rw [← isSome_iff_exists, ← hfit.both, mem_def.mp hs, isSome_some]
        obtain ⟨-, h1, h2, h3⟩ := hfit.data s hs e he
        exact ⟨by omega, h3⟩
      · rintro ⟨⟨hpos, hord⟩, hall⟩
        obtain ⟨hfits, hchains⟩ := hih.mpr hall
        refine ⟨⟨⟨hboth, fun s hs e he => ?_⟩, hfits⟩, ?_, hchains⟩
        · obtain ⟨h1, -, h2⟩ := hdata s hs e he
          obtain ⟨h3, h4⟩ := hord s hs
          rw [addU32_of_lt h3] at h2
          exact ⟨h1, h2, hle e he, h4⟩
        · rw [addU64] at hid
          omega

/-! ## The check -/

variable [Crc] {heal : Bool} {active : Option ℕ} {files : List WalFile} {d : WalDev}
  {s : WalFileSet × WalDev}

theorem checkIntegrity_shallow (h : checkIntegrity heal false (⟨active, files⟩, d) = (.ok (), s)) :
    checkFiles files = .ok () := by
  cases hc : checkFiles files with
  | ok u => rfl
  | error e =>
    cases files with
    | nil => simp [checkFiles] at hc
    | cons first rest =>
      rw [checkIntegrity, Exec.get_bind] at h
      simp only [hc, isEmpty_cons, Bool.false_eq_true, if_false, Except.mapError,
        Exec.lift_error, Exec.stop_bind] at h
      cases h

/-- **Accepted headers are sound iff they also meet what is not tested.** -/
theorem checkIntegrity_sound_iff (hr : ∀ f ∈ files, f.InRange)
    (h : checkIntegrity heal false (⟨active, files⟩, d) = (.ok (), s)) :
    SoundFiles files ↔ ∀ first rest, files = first :: rest → Untested first rest := by
  have hc := checkIntegrity_shallow h
  cases files with
  | nil => exact ⟨nofun, fun _ => ⟨by simp, by simp, isChain_nil⟩⟩
  | cons first rest =>
    rw [checkFiles] at hc
    split_ifs at hc with h1 h2
    have hiff := checkHeaders_fitting_iff (hr first (by simp)).idUntil
      (fun g hg => hr g (by simp [hg])) hc
    have hle : ∀ e ∈ first.dataEnd, e ≤ first.lenMax := by
      intro e he
      rw [mem_def.mp he, getD_some] at h1
      omega
    constructor
    · intro hs a b hab
      cases hab
      obtain ⟨hfirst, hfits⟩ := forall_mem_cons.mp hs.fitting
      have hall := hiff.mp ⟨hfits, hs.follow⟩
      refine ⟨hfirst.both, fun x hx e he => ?_, fun g hg => (hall g hg).1, fun g hg => (hall g hg).2,
        hs.data⟩
      exact ⟨(hfirst.data x hx e he).1, (hfirst.data x hx e he).2.1⟩
    · intro hu
      have ht := hu first rest rfl
      obtain ⟨hfits, hchain⟩ := hiff.mpr fun g hg => ⟨ht.used g hg, ht.order g hg⟩
      refine ⟨forall_mem_cons.mpr ⟨⟨ht.both, fun x hx e he => ?_⟩, hfits⟩, ht.data, hchain⟩
      obtain ⟨h3, h4⟩ := ht.start x hx e he
      exact ⟨h3, h4, hle e he, by omega⟩

/-- Two files of the least size, the second of which holds no data yet. -/
def twoFiles : List WalFile :=
  [⟨⟨1, 3, some 32, some 82⟩, 1, minWalSize, none, none⟩,
    ⟨⟨4, 4, none, none⟩, 2, minWalSize, none, none⟩]

def idleDev : WalDev :=
  Dev.ofDisk ⟨fun _ => ⟨minWalSize, Region.zero⟩, 0, [], ⟨⟨none, none⟩, false⟩⟩

section

omit [Crc]

theorem twoFiles_inRange : ∀ f ∈ twoFiles, f.InRange := by
  intro f hf
  simp only [twoFiles, mem_cons, not_mem_nil, or_false] at hf
  rcases hf with rfl | rfl <;>
    exact ⟨by norm_num, by norm_num, by simp, by simp, by norm_num, by norm_num [minWalSize]⟩

/-- Two files that are accepted and sound. -/
theorem checkIntegrity_sound_iff_two : let := cksum
    checkIntegrity true false (⟨some 1, twoFiles⟩, idleDev) =
      (.ok (), (⟨some 1, twoFiles⟩, idleDev)) ∧ SoundFiles twoFiles := by
  intro _
  refine ⟨rfl, (checkIntegrity_sound_iff twoFiles_inRange
    (show checkIntegrity true false (⟨some 1, twoFiles⟩, idleDev) = _ from rfl)).mpr ?_⟩
  rintro first rest hfiles
  cases hfiles
  exact ⟨rfl, by simp [offsetLogs], by simp, by simp, by simp⟩

/-- **Headers that slip through**: data that does not end or ends before it starts, a `data_start +
16` that wraps around, ids in the wrong order, and a file without data in the middle. -/
theorem unsound_headers_accepted : let := cksum
    ∀ files ∈ ([
      [⟨⟨1, 1, some 32, none⟩, 1, minWalSize, none, none⟩],
      [⟨⟨1, 1, some 5000, some 40⟩, 1, minWalSize, none, none⟩],
      [⟨⟨1, 3, some 32, some 82⟩, 1, minWalSize, none, none⟩,
        ⟨⟨4, 4, some (2 ^ 32 - 1), some 82⟩, 2, minWalSize, none, none⟩],
      [⟨⟨1, 3, some 32, some 82⟩, 1, minWalSize, none, none⟩,
        ⟨⟨4, 2, some 32, some 82⟩, 2, minWalSize, none, none⟩],
      [⟨⟨1, 3, some 32, some 82⟩, 1, minWalSize, none, none⟩,
        ⟨⟨4, 4, none, none⟩, 2, minWalSize, none, none⟩,
        ⟨⟨5, 5, none, none⟩, 3, minWalSize, none, none⟩]] : List (List WalFile)),
      (checkIntegrity true false (⟨some (files.length - 1), files⟩, idleDev)).1 = .ok () ∧
        ¬ SoundFiles files := by
  intro _ files hfiles
  simp only [mem_cons, not_mem_nil, or_false] at hfiles
  rcases hfiles with rfl | rfl | rfl | rfl | rfl
  · exact ⟨rfl, fun h => absurd (h.fitting _ mem_cons_self).both (by simp)⟩
  · refine ⟨rfl, fun h => ?_⟩
    have := (h.fitting _ mem_cons_self).data 5000 rfl 40 rfl
    omega
  · refine ⟨rfl, fun h => ?_⟩
    have := (h.fitting ⟨⟨4, 4, some (2 ^ 32 - 1), some 82⟩, 2, minWalSize, none, none⟩
      (by simp)).data (2 ^ 32 - 1) rfl 82 rfl
    omega
  · refine ⟨rfl, fun h => ?_⟩
    have := (h.fitting ⟨⟨4, 2, some 32, some 82⟩, 2, minWalSize, none, none⟩
      (by simp)).data 32 rfl 82 rfl
    simp only at this
    omega
  · exact ⟨rfl, fun h => absurd (h.data ⟨⟨4, 4, none, none⟩, 2, minWalSize, none, none⟩ (by simp))
      (by simp)⟩

end

end WalFileSet

end Hiqlite.Wal
