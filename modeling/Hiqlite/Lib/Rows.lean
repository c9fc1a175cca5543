import Mathlib.Tactic

/-!
# L16 — rows in the order of a key

A table with a primary key, listed in the order of the key.

* **`rows_insert_last`**: a row with the greatest key goes to the end;
* **`rows_deleteBelow`**: what is below a bound is a beginning of the rows.
-/

namespace Hiqlite

open List

structure Rows {α κ : Type} [LT κ] (key : α → κ) where
  rows : List α
  sorted : rows.Pairwise fun a b => key a < key b

namespace Rows

variable {α κ : Type} [LT κ] {key : α → κ}

def empty : Rows key := ⟨[], Pairwise.nil⟩

def find [DecidableEq κ] (t : Rows key) (x : κ) : Option α := t.rows.find? (key · = x)

def deleteBelow [DecidableLT κ] (t : Rows key) (x : κ) : Rows key :=
  ⟨t.rows.filter (¬ key · < x), t.sorted.filter _⟩

section Insert

variable [DecidableEq κ] [DecidableLT κ] [IsTrans κ (· < ·)]

def insert (t : Rows key) (a : α) : Option (Rows key) :=
  if (t.find (key a)).isSome then none
  else some
    { rows := t.rows.filter (key · < key a) ++ a :: t.rows.filter (key a < key ·)
      sorted := by
        rw [pairwise_append, pairwise_cons]
        refine ⟨t.sorted.filter _, ⟨fun b hb => ?_, t.sorted.filter _⟩, fun b hb c hc => ?_⟩
        · exact of_decide_eq_true (mem_filter.mp hb).2
        · have hb : key b < key a := of_decide_eq_true (mem_filter.mp hb).2
          rcases mem_cons.mp hc with rfl | hc
          · exact hb
          · exact IsTrans.trans _ _ _ hb (of_decide_eq_true (mem_filter.mp hc).2) }

variable {t : Rows key} {a : α}

theorem rows_insert_last [Std.Irrefl (· < · : κ → κ → Prop)] (h : ∀ b ∈ t.rows, key b < key a) :
    ∃ t', t.insert a = some t' ∧ t'.rows = t.rows ++ [a] := by
  have hirrefl : ∀ x : κ, ¬ x < x := Std.Irrefl.irrefl
  have hfind : t.find (key a) = none := by
    refine find?_eq_none.mpr fun b hb hkey => hirrefl (key a) ?_
    have hlt := h b hb
    rwa [of_decide_eq_true hkey] at hlt
  have hbefore : t.rows.filter (key · < key a) = t.rows :=
    filter_eq_self.mpr fun b hb => decide_eq_true (h b hb)
  have hafter : t.rows.filter (key a < key ·) = [] := by
    refine filter_eq_nil_iff.mpr fun b hb hlt => hirrefl (key a) ?_
    exact IsTrans.trans _ _ _ (of_decide_eq_true hlt) (h b hb)
  refine ⟨_, by rw [insert, hfind]; rfl, ?_⟩
  dsimp only
  rw [hbefore, hafter]

theorem insert_ne {t' : Rows key} (h : t.insert a = some t') : t' ≠ t := by
  unfold insert at h
  split_ifs at h with hfind
  rintro rfl
  have hmem : a ∈ t'.rows := by
    rw [← Option.some.inj h]
    exact mem_append_right _ mem_cons_self
  rw [find, Option.not_isSome_iff_eq_none] at hfind
  exact find?_eq_none.mp hfind a hmem (decide_eq_true rfl)

end Insert

theorem rows_deleteBelow [DecidableLT κ] {t : Rows key} {x : κ} {l l' : List α}
    (hrows : t.rows = l ++ l') (hlow : ∀ a ∈ l, key a < x) (hhigh : ∀ a ∈ l', ¬ key a < x) :
    (t.deleteBelow x).rows = l' := by
  have hl : l.filter (¬ key · < x) = [] :=
    filter_eq_nil_iff.mpr fun a ha => by simpa using hlow a ha
  have hl' : l'.filter (¬ key · < x) = l' :=
    filter_eq_self.mpr fun a ha => by simpa using hhigh a ha
  change t.rows.filter (¬ key · < x) = l'
  rw [hrows, filter_append, hl, hl', nil_append]

end Rows

end Hiqlite
