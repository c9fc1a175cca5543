import Mathlib.Tactic

/-!
# T1 — log ids

The part of raft's types that the stores look at.

* `Precedes`: the order of the ids of one log, in which every index has one id; `OneLog`.
-/

namespace Hiqlite

structure LeaderId where
  term : ℕ
  nodeId : ℕ
  deriving DecidableEq

structure LogId where
  leaderId : LeaderId
  index : ℕ
  deriving DecidableEq

/-- The ids of one log in their order. Nothing comes before the first entry. -/
def Precedes : Option LogId → Option LogId → Prop
  | none, _ => True
  | some _, none => False
  | some a, some b => a = b ∨ a.index < b.index

instance : ∀ a b, Decidable (Precedes a b)
  | none, _ => isTrue trivial
  | some _, none => isFalse id
  | some a, some b => inferInstanceAs (Decidable (a = b ∨ a.index < b.index))

theorem Precedes.refl (a : Option LogId) : Precedes a a := by
  cases a with
  | none => trivial
  | some a => exact .inl rfl

theorem Precedes.trans {a b c : Option LogId} (h1 : Precedes a b) (h2 : Precedes b c) :
    Precedes a c := by
  cases a with
  | none => trivial
  | some a =>
    cases b with
    | none => exact h1.elim
    | some b =>
      cases c with
      | none => exact h2.elim
      | some c => grind [Precedes]

theorem Precedes.eq_none {a : Option LogId} (h : Precedes a none) : a = none := by
  cases a with
  | none => rfl
  | some a => exact h.elim

theorem Precedes.eq_of_index_le {a b : LogId} (h : Precedes (some a) (some b))
    (hi : b.index ≤ a.index) : a = b :=
  h.elim id fun hlt => absurd hlt (not_lt.mpr hi)

def OneLog {I : Type} (last : I → Option LogId) : Prop :=
  ∀ i j, Precedes (last i) (last j) ∨ Precedes (last j) (last i)

end Hiqlite
