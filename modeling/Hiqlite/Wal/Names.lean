import Mathlib.Data.Char
import Mathlib.Data.List.Lex
import Hiqlite.Lib.Text
import Hiqlite.Wal.Set

/-!
# W30 — the names of the WAL files

`WalFileSet::read` sorts names, the model of the directory holds numbers.

* **`readNames_ordered`**: the files are read by increasing number, in any listing.
-/

namespace Hiqlite.Wal

open List

namespace WalFile

def fileName (walNo : ℕ) : List Char := padded 16 walNo ++ ".wal".toList

/-- `WalFile::build_full_path`, which panics for more than 16 digits. -/
def buildFullPath (basePath : List Char) (walNo : ℕ) : Option (List Char) :=
  if (Nat.toDigits 10 walNo).length ≤ 16 then some (basePath ++ '/' :: fileName walNo) else none

/-- The number that `WalFile::read_from_file` takes from the path. -/
def pathNo (pathFull : List Char) : Option ℕ := do
  let (_, fname) ← rsplitOnce '/' pathFull
  let (num, ending) ← splitOnce '.' fname
  if ending ≠ "wal".toList then none else parseU64 num

variable {a b no : ℕ} {base : List Char}

theorem not_mem_padded {c : Char} (hc : c.isDigit = false) : c ∉ padded 16 no :=
  fun h => absurd (isDigit_of_mem_padded h) (by simp [hc])

theorem buildFullPath_of_lt (h : no < 10 ^ 16) :
    buildFullPath base no = some (base ++ '/' :: fileName no) :=
  if_pos (Nat.toDigits_length 10 no 16 (by decide) h)

theorem pathNo_fileName (h : no < 10 ^ 16) : pathNo (base ++ '/' :: fileName no) = some no := by
  have hslash : '/' ∉ fileName no := by
    simpa [fileName] using not_mem_padded (by decide)
  have hdot : splitOnce '.' (fileName no) = some (padded 16 no, "wal".toList) :=
    splitOnce_append (not_mem_padded (by decide))
  simp [pathNo, rsplitOnce_append hslash, hdot, parseU64_padded 16 (show no < 2 ^ 64 by omega)]

theorem fileName_lt (hb : b < 10 ^ 16) (h : a < b) : fileName a < fileName b := by
  refine append_lt_append ?_ (padded_lt (by decide) hb h)
  rw [length_padded (by decide) (h.trans hb), length_padded (by decide) hb]

theorem fileName_le (hb : b < 10 ^ 16) (h : a ≤ b) : fileName a ≤ fileName b := by
  rcases h.lt_or_eq with hlt | rfl
  · exact (fileName_lt hb hlt).le
  · exact le_rfl

theorem fileName_inj (ha : a < 10 ^ 16) (hb : b < 10 ^ 16) (h : fileName a = fileName b) :
    a = b := by
  have hread : pathNo ([] ++ '/' :: fileName a) = some a := pathNo_fileName ha
  rw [h, pathNo_fileName hb] at hread
  exact (Option.some.inj hread).symm

end WalFile

namespace WalFileSet

open WalFile

def isWal (name : List Char) : Bool := ".wal".toList.isSuffixOf name

/-- The loops of `WalFileSet::read` over a listing of names with their inodes. -/
def readNames (basePath : List Char) (listing : List (List Char × ℕ)) (d : WalDisk) :
    List WalFile :=
  ((listing.filter fun e => isWal e.1).insertionSort (·.1 ≤ ·.1)).filterMap fun e =>
    (pathNo (basePath ++ '/' :: e.1)).bind fun no => (readFromFile no e.2 d).toOption

def named (e : ℕ × ℕ) : List Char × ℕ := (fileName e.1, e.2)

theorem isWal_fileName (no : ℕ) : isWal (fileName no) = true := by
  simp [isWal, fileName]

variable {d : WalDisk} {base : List Char} {others listing : List (List Char × ℕ)}

theorem walNo_of_read {no ino : ℕ} {f : WalFile}
    (h : f ∈ (readFromFile no ino d).toOption) : f.walNo = no := by
  unfold readFromFile at h
  split at h
  · cases h
  · split at h <;> cases h
    rfl

theorem readDir_walNo (hnd : (d.dir.map (·.1)).Nodup) :
    (readDir d).Pairwise (·.walNo < ·.walNo) := by
  have hdir : ((d.dir.insertionSort (·.1 ≤ ·.1)).map (·.1)).Nodup :=
    (((perm_insertionSort _ _).map _).nodup_iff).mpr hnd
  have hsorted : (d.dir.insertionSort (·.1 ≤ ·.1)).Pairwise fun e e' => e.1 < e'.1 := by
    refine ((pairwise_insertionSort _ _).and (pairwise_map.mp hdir)).imp ?_
    intro e e' h
    exact lt_of_le_of_ne h.1 h.2
  refine hsorted.filterMap _ fun e e' hlt f hf f' hf' => ?_
  rw [walNo_of_read hf, walNo_of_read hf']
  exact hlt

section Ordered

variable (hnd : (d.dir.map (·.1)).Nodup) (hno : ∀ e ∈ d.dir, e.1 < 10 ^ 16)
  (hothers : ∀ e ∈ others, isWal e.1 = false)
  (hlist : listing.Perm (d.dir.map named ++ others))
include hnd hno hothers hlist

/-- Sorting the names is sorting the numbers. -/
theorem sorted_names : (listing.filter fun e => isWal e.1).insertionSort (·.1 ≤ ·.1) =
    (d.dir.insertionSort (·.1 ≤ ·.1)).map named := by
  have hperm := perm_insertionSort (fun a b : ℕ × ℕ => a.1 ≤ b.1) d.dir
  have hfilter : (listing.filter fun e => isWal e.1).Perm (d.dir.map named) := by
    refine (hlist.filter _).trans (Perm.of_eq ?_)
    have hnone : others.filter (fun e => isWal e.1) = [] :=
      filter_eq_nil_iff.mpr (by simpa using hothers)
    rw [filter_append, hnone, append_nil, filter_eq_self]
    intro e he
    obtain ⟨e, -, rfl⟩ := mem_map.mp he
    exact isWal_fileName e.1
  have hnames := (perm_insertionSort (fun a b : List Char × ℕ => a.1 ≤ b.1) _).trans hfilter
  refine Perm.eq_of_pairwise ?_ (pairwise_insertionSort _ _) ?_
    (hnames.trans (hperm.map named).symm)
  · -- Two entries of one name have one number, hence they are one entry.
    intro x y hx hy hxy hyx
    obtain ⟨e, he, rfl⟩ := mem_map.mp (hnames.mem_iff.mp hx)
    obtain ⟨e', he', rfl⟩ := mem_map.mp hy
    have he' := hperm.mem_iff.mp he'
    have heq := fileName_inj (hno e he) (hno e' he') (le_antisymm hxy hyx)
    rw [inj_on_of_nodup_map hnd he he' heq]
  · refine pairwise_map.mpr ((pairwise_insertionSort _ _).imp_of_mem ?_)
    intro e e' _ he' hle
    exact fileName_le (hno e' (hperm.mem_iff.mp he')) hle

theorem readNames_eq : readNames base listing d = readDir d := by
  rw [readNames, sorted_names hnd hno hothers hlist, filterMap_map, readDir]
  refine filterMap_congr fun e he => ?_
  have he' := (perm_insertionSort _ _).mem_iff.mp he
  simp [named, pathNo_fileName (hno e he')]

/-- **The files are read by increasing number**, for every listing order and with any other files
in the directory: a name is parsed back to its number, and no two numbers share a name. -/
theorem readNames_ordered : (∀ e ∈ d.dir, (buildFullPath base e.1).bind pathNo = some e.1) ∧
    (∀ e ∈ d.dir, ∀ e' ∈ d.dir, buildFullPath base e.1 = buildFullPath base e'.1 → e.1 = e'.1) ∧
    readNames base listing d = readDir d ∧ (readDir d).Pairwise (·.walNo < ·.walNo) := by
  refine ⟨?_, ?_, readNames_eq hnd hno hothers hlist, readDir_walNo hnd⟩
  · intro e he
    rw [buildFullPath_of_lt (hno e he), Option.bind_some, pathNo_fileName (hno e he)]
  · intro e he e' he' h
    rw [buildFullPath_of_lt (hno e he), buildFullPath_of_lt (hno e' he')] at h
    refine fileName_inj (hno e he) (hno e' he') ?_
    simpa using h

end Ordered

def twelveThree : WalDisk :=
  ⟨fun _ => ⟨64, Region.zero.write 0 (magicNoWal ++ [1])⟩, 9, [(12, 1), (3, 0)], ⟨⟨none, none⟩, true⟩⟩

theorem readNames_two :
    (readNames "logs".toList [("0000000000000012.wal".toList, 1), ("lock.hql".toList, 7),
      ("0000000000000003.wal".toList, 0), ("meta.hql".toList, 8)] twelveThree).map (·.walNo) =
      [3, 12] := by
  rw [(@readNames_ordered twelveThree _ [("lock.hql".toList, 7), ("meta.hql".toList, 8)] _
    (by decide) (by decide) (by decide) (by decide)).2.2.1]
  decide

end WalFileSet

end Hiqlite.Wal
