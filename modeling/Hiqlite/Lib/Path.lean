import Mathlib.Tactic

/-!
# L5 — paths of a labelled transition system

* `Path step s ls t`: the labels `ls` lead from `s` to `t`, one step at a time;
* **`Path.cut`**: every beginning of the labels is a path;
* **`Path.invariant`**: what every step preserves holds at the end, given the labels so far.
-/

namespace Hiqlite

open List

variable {σ ι : Type}

/-- The labels `ls` lead from `s` to `t`. -/
inductive Path (step : σ → ι → σ → Prop) (s : σ) : List ι → σ → Prop
  | nil : Path step s [] s
  | snoc {ls : List ι} {t u : σ} {l : ι} (h : Path step s ls t) (hl : step t l u) :
      Path step s (ls ++ [l]) u

namespace Path

variable {step step' : σ → ι → σ → Prop} {s t u : σ} {ls ls' : List ι} {l : ι}

theorem single (h : step s l t) : Path step s [l] t := snoc nil h

theorem trans (h : Path step s ls t) (h' : Path step t ls' u) : Path step s (ls ++ ls') u := by
  induction h' with
  | nil => simpa using h
  | snoc _ hl ih => simpa using ih.snoc hl

theorem mono (himp : ∀ s l t, step s l t → step' s l t) (h : Path step s ls t) :
    Path step' s ls t := by
  induction h with
  | nil => exact nil
  | snoc _ hl ih => exact ih.snoc (himp _ _ _ hl)

theorem cut (h : Path step s ls t) (n : ℕ) :
    ∃ u, Path step s (ls.take n) u ∧ Path step u (ls.drop n) t := by
  induction h with
  | nil => exact ⟨s, by simpa using nil, by simpa using nil⟩
  | @snoc ls t u l h hl ih =>
    rcases Nat.lt_or_ge ls.length n with hn | hn
    · refine ⟨u, ?_, ?_⟩
      · rw [take_of_length_le (by simp; omega)]
        exact h.snoc hl
      · rw [drop_of_length_le (by simp; omega)]
        exact nil
    · obtain ⟨w, h1, h2⟩ := ih
      refine ⟨w, ?_, ?_⟩
      · rwa [take_append_of_le_length hn]
      · rw [drop_append_of_le_length hn]
        exact h2.snoc hl

theorem of_append (h : Path step s (ls ++ ls') t) : ∃ u, Path step s ls u ∧ Path step u ls' t := by
  simpa using h.cut ls.length

theorem of_cons (h : Path step s (l :: ls) t) : ∃ u, step s l u ∧ Path step u ls t := by
  obtain ⟨u, h1, h2⟩ := h.cut 1
  refine ⟨u, ?_, by simpa using h2⟩
  rw [show (l :: ls).take 1 = [] ++ [l] from rfl] at h1
  generalize hls : ([] ++ [l] : List ι) = ls1 at h1
  cases h1 with
  | nil => simp at hls
  | snoc h hl =>
    obtain ⟨rfl, hl'⟩ := append_inj' hls rfl
    cases hl'
    generalize hnil : ([] : List ι) = ls2 at h
    cases h with
    | nil => exact hl
    | snoc => simp at hnil

theorem of_nil (h : Path step s [] t) : t = s := by
  generalize hnil : ([] : List ι) = ls at h
  cases h with
  | nil => rfl
  | snoc => simp at hnil

theorem unique (hstep : ∀ s l t u, step s l t → step s l u → t = u) (h : Path step s ls t)
    (h' : Path step s ls u) : t = u := by
  induction h generalizing u with
  | nil => exact h'.of_nil.symm
  | snoc _ hl ih =>
    obtain ⟨v, hv, hlast⟩ := h'.of_append
    obtain ⟨v', hl', hend⟩ := hlast.of_cons
    obtain rfl := hend.of_nil
    obtain rfl := ih hv
    exact hstep _ _ _ _ hl hl'

/-- **Invariants.** What holds at the start and is kept by every step holds at the end. The
invariant may look at the labels so far. -/
theorem invariant {I : List ι → σ → Prop} (h : Path step s ls t) (h0 : I [] s)
    (hstep : ∀ ls t l u, I ls t → step t l u → I (ls ++ [l]) u) : I ls t := by
  induction h with
  | nil => exact h0
  | snoc _ hl ih => exact hstep _ _ _ _ ih hl

theorem of_foldlM {f : σ → ι → Option σ} (h : ls.foldlM f s = some t) :
    Path (fun s l t => f s l = some t) s ls t := by
  induction ls using reverseRecOn generalizing t with
  | nil =>
    cases h
    exact nil
  | append_singleton ls l ih =>
    rw [foldlM_append] at h
    obtain ⟨u, hu, hl⟩ := Option.bind_eq_some_iff.mp h
    exact (ih hu).snoc (by simpa using hl)

/-- The same for steps that are only taken where `g` allows it. -/
theorem of_foldlM_if {f : σ → ι → Option σ} {g : σ → ι → Prop} [∀ s l, Decidable (g s l)]
    (h : ls.foldlM (fun s l => if g s l then f s l else none) s = some t) :
    Path (fun s l t => g s l ∧ f s l = some t) s ls t :=
  (of_foldlM h).mono fun _ _ _ h => by simpa using h

end Path

theorem exists_take_filterMap {α β : Type} (f : α → Option β) (l : List α) (k : ℕ) :
    ∃ m, (l.take m).filterMap f = (l.filterMap f).take k := by
  induction l generalizing k with
  | nil => exact ⟨0, by simp⟩
  | cons a l ih =>
    cases hf : f a with
    | none =>
      obtain ⟨m, hm⟩ := ih k
      exact ⟨m + 1, by simp [hf, hm]⟩
    | some b =>
      cases k with
      | zero => exact ⟨0, by simp⟩
      | succ k =>
        obtain ⟨m, hm⟩ := ih k
        exact ⟨m + 1, by simp [hf, hm]⟩

end Hiqlite
