import Hiqlite.Lib.Exec

/-!
# L12 — two runs side by side

* **`Exec.Coupled`**: two programs end in the same way and leave related states behind.
-/

namespace Hiqlite.Exec

variable {σ τ ε α β : Type} {R : σ → τ → Prop} {s : σ} {t : τ}

/-- Both programs end in the same way, in states that are related. -/
def Coupled (R : σ → τ → Prop) (x : Exec σ ε α) (y : Exec τ ε α) (s : σ) (t : τ) : Prop :=
  (x s).1 = (y t).1 ∧ R (x s).2 (y t).2

namespace Coupled

variable {x : Exec σ ε α} {y : Exec τ ε α} {s' : σ} {f : α → Exec σ ε β} {g : α → Exec τ ε β}

theorem exists_eq {r : Except ε α} (h : Coupled R x y s t) (hx : x s = (r, s')) :
    ∃ t', y t = (r, t') ∧ R s' t' := by
  obtain ⟨hfst, hrel⟩ := h
  rw [hx] at hfst hrel
  exact ⟨(y t).2, Prod.ext hfst.symm rfl, hrel⟩

theorem pure (h : R s t) (a : α) : Coupled (ε := ε) R (pure a) (pure a) s t := ⟨rfl, h⟩

theorem stop (h : R s t) (e : ε) : Coupled (α := α) R (stop e) (stop e) s t := ⟨rfl, h⟩

theorem modify {f : σ → σ} {g : τ → τ} (h : R (f s) (g t)) :
    Coupled (ε := ε) R (modify f) (modify g) s t := ⟨rfl, h⟩

theorem bind_ok {a : α} {t' : τ} (hx : x s = (.ok a, s')) (hy : y t = (.ok a, t'))
    (h : Coupled R (f a) (g a) s' t') : Coupled R (x >>= f) (y >>= g) s t := by
  rwa [Coupled, Exec.bind_ok hx, Exec.bind_ok hy]

theorem bind_error {e : ε} {t' : τ} (hx : x s = (.error e, s')) (hy : y t = (.error e, t'))
    (h : R s' t') : Coupled R (x >>= f) (y >>= g) s t := by
  rw [Coupled, Exec.bind_error hx, Exec.bind_error hy]
  exact ⟨rfl, h⟩

theorem bind (h : Coupled R x y s t) (hf : ∀ a s' t', R s' t' → Coupled R (f a) (g a) s' t') :
    Coupled R (x >>= f) (y >>= g) s t := by
  obtain ⟨hfst, hrel⟩ := h
  cases hx : x s with
  | mk rx s' =>
    cases hy : y t with
    | mk ry t' =>
      simp only [hx, hy] at hfst hrel
      subst hfst
      cases rx with
      | ok a => exact bind_ok hx hy (hf a s' t' hrel)
      | error e => exact bind_error hx hy hrel

theorem get_bind {f : σ → Exec σ ε α} {g : τ → Exec τ ε α} (h : Coupled R (f s) (g t) s t) :
    Coupled R (get >>= f) (get >>= g) s t := h

theorem modify_bind {f : σ → σ} {g : τ → τ} {x : Unit → Exec σ ε α} {y : Unit → Exec τ ε α}
    (h : Coupled R (x ()) (y ()) (f s) (g t)) :
    Coupled R (Exec.modify f >>= x) (Exec.modify g >>= y) s t := h

theorem ite {c : Prop} [Decidable c] {x' : Exec σ ε α} {y' : Exec τ ε α}
    (hpos : c → Coupled R x y s t) (hneg : ¬ c → Coupled R x' y' s t) :
    Coupled R (if c then x else x') (if c then y else y') s t := by
  split_ifs with hc
  · exact hpos hc
  · exact hneg hc

end Coupled

end Hiqlite.Exec
