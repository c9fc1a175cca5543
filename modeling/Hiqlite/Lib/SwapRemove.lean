import Mathlib.Tactic

/-!
# L17 — removing from a vector by swapping

`swapRemove` takes an element out of a vector and moves the last one into its place, as
`Vec::swap_remove` does. The order changes, the other elements do not.

* **`removeAll_positions`**: from the back to the front, removals at the indices of the elements with
  a property take out exactly these.
-/

namespace Hiqlite

open List

variable {α : Type}

/-- The element at `i` and the rest, or `none` where `swap_remove` panics. -/
def swapRemove (l : List α) (i : ℕ) : Option (α × List α) :=
  match l[i]? with
  | some a => some (a, (l.set i (l.getLast?.getD a)).dropLast)
  | none => none

/-- **A removal keeps what is before the element, and the elements behind it.** -/
theorem exists_swapRemove (xs : List α) (a : α) (ys : List α) :
    ∃ zs, zs.Perm ys ∧ swapRemove (xs ++ a :: ys) xs.length = some (a, xs ++ zs) := by
  have hget : (xs ++ a :: ys)[xs.length]? = some a := by simp
  rw [swapRemove, hget]
  rcases eq_nil_or_concat' ys with rfl | ⟨ws, w, rfl⟩
  · exact ⟨[], Perm.refl _, by simp⟩
  · refine ⟨w :: ws, (perm_append_singleton w ws).symm, ?_⟩
    have hset : (xs ++ a :: (ws ++ [w])).set xs.length w = (xs ++ w :: ws) ++ [w] := by simp
    have hlast : (xs ++ a :: (ws ++ [w])).getLast? = some w := by
      rw [← cons_append, ← append_assoc, getLast?_concat]
    simp only [hlast, Option.getD_some, hset, dropLast_concat]

/-! ## Several removals -/

/-- The indices of the elements with `p`, in order. -/
def positions (p : α → Bool) (l : List α) : List ℕ :=
  (l.zipIdx.filter fun x => p x.1).map Prod.snd

def removeAll : List ℕ → List α → Option (List α)
  | [], l => some l
  | i :: is, l => (swapRemove l i).bind fun r => removeAll is r.2

variable {p : α → Bool}

theorem positions_concat (xs : List α) (x : α) :
    positions p (xs ++ [x]) = positions p xs ++ if p x then [xs.length] else [] := by
  rw [positions, zipIdx_append, filter_append, map_append, positions]
  cases hp : p x <;> simp [hp]

/-- **From the back to the front, exactly the elements with `p` are removed.** `ys` are those that
have been looked at already. -/
theorem removeAll_positions (xs ys : List α) (hys : ∀ y ∈ ys, p y = false) :
    ∃ r, removeAll (positions p xs).reverse (xs ++ ys) = some r ∧
      r.Perm (xs.filter (fun x => !p x) ++ ys) := by
  induction xs using reverseRecOn generalizing ys with
  | nil => exact ⟨ys, rfl, Perm.refl _⟩
  | append_singleton xs x ih =>
    rw [positions_concat, append_assoc, singleton_append, filter_append]
    cases hx : p x with
    | true =>
      obtain ⟨zs, hperm, hrem⟩ := exists_swapRemove xs x ys
      obtain ⟨r, hr, hrperm⟩ := ih zs fun z hz => hys z (hperm.mem_iff.mp hz)
      refine ⟨r, ?_, ?_⟩
      · simp [removeAll, hrem, hr]
      · simpa [hx] using hrperm.trans (hperm.append_left _)
    | false =>
      obtain ⟨r, hr, hrperm⟩ := ih (x :: ys) (by simpa [hx] using hys)
      exact ⟨r, by simpa using hr, by simpa [hx] using hrperm⟩

end Hiqlite
