import Mathlib.Tactic

/-!
# L11 — entries that expire

What is stored under a key: a value, and perhaps a time from which on it does not count. An entry that
does not count any more may be thrown away at any time, or not at all: nobody who looks can tell
(**`Swept.view`**, **`Swept.agree`**).
-/

namespace Hiqlite.Expiring

variable {V : Type}

/-- The entry counts at the time `t`. -/
def Live (t : ℤ) (x : V × Option ℤ) : Prop := ∀ e ∈ x.2, t < e

instance (t : ℤ) (x : V × Option ℤ) : Decidable (Live t x) :=
  match h : x.2 with
  | none => isTrue fun e he => by rw [h] at he; cases he
  | some e => decidable_of_iff (t < e) ⟨fun ht e' he' => by rw [h] at he'; cases he'; exact ht,
      fun hl => hl e h⟩

/-- What a look at the time `t` finds. -/
def view (t : ℤ) (o : Option (V × Option ℤ)) : Option V :=
  o.bind fun x => if Live t x then some x.1 else none

variable {t t' t'' : ℤ} {o o' o'' : Option (V × Option ℤ)} {v : V}

theorem view_eq_some : view t o = some v ↔ ∃ x, o = some (v, x) ∧ ∀ e ∈ x, t < e := by
  cases o with
  | none => simp [view]
  | some x =>
    obtain ⟨v', e⟩ := x
    simp only [view, Option.bind_some, Option.ite_none_right_eq_some, Option.some.injEq,
      Prod.mk.injEq]
    exact ⟨fun ⟨hl, hv⟩ => ⟨e, ⟨hv, rfl⟩, hl⟩, fun ⟨x, ⟨hv, hx⟩, hl⟩ => ⟨hx ▸ hl, hv⟩⟩

theorem not_live_of_le (h : t ≤ t') {x : V × Option ℤ} (hx : ¬ Live t x) : ¬ Live t' x :=
  fun hl => hx fun e he => lt_of_le_of_lt h (hl e he)

/-- `o'` is what is left of `o` at the time `t`. -/
def Swept (t : ℤ) (o o' : Option (V × Option ℤ)) : Prop :=
  o' = o ∨ o' = none ∧ ∃ x, o = some x ∧ ¬ Live t x

theorem Swept.refl : Swept t o o := .inl rfl

theorem Swept.mono (h : Swept t o o') (ht : t ≤ t') : Swept t' o o' := by
  rcases h with h | ⟨h, x, hx, hl⟩
  · exact .inl h
  · exact .inr ⟨h, x, hx, not_live_of_le ht hl⟩

theorem Swept.trans (h : Swept t o o') (h' : Swept t o' o'') : Swept t o o'' := by
  rcases h' with rfl | ⟨rfl, x, rfl, hl⟩
  · exact h
  · rcases h with h | ⟨h, -⟩
    · exact .inr ⟨rfl, x, h.symm, hl⟩
    · cases h

theorem Swept.view (h : Swept t o o') (ht : t ≤ t') : view t' o' = view t' o := by
  rcases h with rfl | ⟨rfl, x, rfl, hl⟩
  · rfl
  · simp [Expiring.view, not_live_of_le ht hl]

/-- The same at the times `t` and `t'`, or nothing on the side where the entry does not count. -/
def Agree (t t' : ℤ) (o o' : Option (V × Option ℤ)) : Prop :=
  o = o' ∨ (o = none ∧ ∃ x, o' = some x ∧ ¬ Live t x) ∨ o' = none ∧ ∃ x, o = some x ∧ ¬ Live t' x

theorem Swept.agree (h : Swept t o o') (h' : Swept t' o o'') : Agree t t' o' o'' := by
  rcases h with rfl | ⟨rfl, x, rfl, hl⟩ <;> rcases h' with rfl | ⟨rfl, x', hx', hl'⟩
  · exact .inl rfl
  · exact .inr (.inr ⟨rfl, x', hx', hl'⟩)
  · exact .inr (.inl ⟨rfl, x, rfl, hl⟩)
  · exact .inl rfl

end Hiqlite.Expiring
