import Mathlib.Tactic

/-!
# L9 — outcomes with a count

The outcomes that a call may have in an environment that is not under its control, each together
with how often something happened on the way.

* `Holds`, **`holds_bind`**: a property of every outcome, and of a sequence.
-/

namespace Hiqlite

def Effect (α : Type) : Type := Set (α × ℕ)

namespace Effect

variable {α β : Type}

instance : Membership (α × ℕ) (Effect α) := ⟨fun x p => Set.Mem x p⟩

instance : Monad Effect where
  pure a := { p | p = (a, 0) }
  bind x f := { p | ∃ a m n, (a, m) ∈ x ∧ (p.1, n) ∈ f a ∧ p.2 = m + n }

def either (x y : Effect α) : Effect α := { p | p ∈ x ∨ p ∈ y }

/-- Every outcome of `x` has the property `P`. -/
def Holds (P : α → ℕ → Prop) (x : Effect α) : Prop := ∀ p ∈ x, P p.1 p.2

variable {P : α → ℕ → Prop} {P' : β → ℕ → Prop} {x y : Effect α} {f : α → Effect β}

theorem holds_pure {a : α} (h : P a 0) : Holds P (pure a : Effect α) := by
  rintro p rfl
  exact h

theorem holds_either (hx : Holds P x) (hy : Holds P y) : Holds P (either x y) := fun p hp =>
  hp.elim (hx p) (hy p)

/-- **A sequence**: what holds of the second part, with the count of the first one added. -/
theorem holds_bind (hx : Holds P x)
    (hf : ∀ a m, P a m → Holds (fun b n => P' b (m + n)) (f a)) : Holds P' (x >>= f) := by
  rintro ⟨b, k⟩ ⟨a, m, n, ha, hb, hk⟩
  have := hf a m (hx _ ha) _ hb
  rw [show k = m + n from hk]
  exact this

end Effect

end Hiqlite
