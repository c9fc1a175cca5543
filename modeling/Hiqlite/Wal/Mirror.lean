import Hiqlite.Wal.Set

/-!
# W11 — mirrors of the file set

The writer publishes its files to the readers, and each reader keeps a copy of the published list.
Both copies are brought up to date by `clone_files_from_no_mmap`, which pairs old and new files by
position. The copy is right if the files that stay are the first ones of the new list
(**`cloneFilesFromNoMmap_spec`**).
-/

namespace Hiqlite.Wal

open List WalFile

structure WalFile.Agrees (g f : WalFile) : Prop where
  no : g.walNo = f.walNo
  header : g.toHeader = f.toHeader

theorem Agrees.nos {gs fs : List WalFile} (h : Forall₂ Agrees gs fs) :
    gs.map walNo = fs.map walNo := by
  induction h with
  | nil => rfl
  | cons h _ ih => rw [map_cons, map_cons, h.no, ih]

namespace WalFileSet

theorem agrees_zipWith {kept other : List WalFile} (hp : kept.map walNo <+: other.map walNo) :
    Forall₂ Agrees (kept.zipWith cloneFromNoMmap other ++
      (other.drop kept.length).map cloneNoMmap) other := by
  induction kept generalizing other with
  | nil =>
    rw [zipWith_nil_left, nil_append, length_nil, drop_zero,
      forall₂_map_left_iff]
    exact forall₂_same.mpr fun f _ => ⟨rfl, rfl⟩
  | cons f kept ih =>
    cases other with
    | nil => simp at hp
    | cons g other =>
      obtain ⟨hno, hp⟩ := cons_prefix_cons.mp hp
      exact .cons ⟨hno, rfl⟩ (ih hp)

/-- **Bringing a copy up to date.** A read mapping is one the copy had before. -/
theorem cloneFilesFromNoMmap_spec (files other : List WalFile)
    (hp : (files.map walNo).filter (· ∈ other.map walNo) <+:
      other.map walNo) :
    ∃ gs, cloneFilesFromNoMmap files other = .ok gs ∧ Forall₂ Agrees gs other ∧
      ∀ g ∈ gs, ∀ i ∈ g.mmap, ∃ f ∈ files, f.walNo = g.walNo ∧ f.mmap = some i := by
  set kept := files.filter fun f => other.any fun upd => upd.walNo = f.walNo with hkept
  have hnos : kept.map walNo <+: other.map walNo := by
    convert hp using 1
    rw [hkept, filter_map]
    congr 1
    refine filter_congr fun f _ => ?_
    rw [Bool.eq_iff_iff]
    simp only [Function.comp_apply, mem_map, decide_eq_true_eq, any_eq_true]
  have hlen : ¬ other.length < kept.length := by
    have := hnos.length_le
    rw [length_map, length_map] at this
    omega
  refine ⟨_, by rw [cloneFilesFromNoMmap, ← hkept]; exact if_neg hlen, agrees_zipWith hnos, ?_⟩
  intro g hg i hi
  rcases mem_append.mp hg with hg | hg
  · obtain ⟨n, hn, rfl⟩ := mem_iff_getElem.mp hg
    rw [getElem_zipWith] at hi ⊢
    have hn' : n < kept.length := by
      rw [length_zipWith] at hn
      omega
    exact ⟨kept[n], (mem_filter.mp (getElem_mem hn')).1, rfl, hi⟩
  · obtain ⟨f, -, rfl⟩ := mem_map.mp hg
    cases hi

end WalFileSet

end Hiqlite.Wal
