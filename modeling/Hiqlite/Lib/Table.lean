import Mathlib.Data.List.AList
import Mathlib.Tactic

/-!
# L8 — tables with one value for each key

A hash map as the association list of its entries. The values are what the rest of a program gives
away and takes back, so every operation is described by the values it moves.

* **`values_erase`**, **`values_insert`**: what is removed or replaced is the value looked up;
* **`values_union`**: the same for a union, in which the first table wins.
-/

namespace Hiqlite

open List

abbrev Table (K V : Type) : Type := AList fun _ : K => V

namespace Table

variable {K V : Type}

def listValues (l : List (Sigma fun _ : K => V)) : Multiset V := (l.map Sigma.snd : List V)

def values (t : Table K V) : Multiset V := listValues t.entries

@[simp] theorem listValues_nil : listValues ([] : List (Sigma fun _ : K => V)) = 0 := rfl

@[simp] theorem listValues_cons (e : Sigma fun _ : K => V) (l : List (Sigma fun _ : K => V)) :
    listValues (e :: l) = e.2 ::ₘ listValues l := rfl

@[simp] theorem values_empty : values (∅ : Table K V) = 0 := rfl

variable [DecidableEq K] {t t1 t2 : Table K V} {a b : K} {v w : V}

theorem mem_values : v ∈ values t ↔ ∃ a, v ∈ t.lookup a := by
  simp only [values, listValues, Multiset.mem_coe, mem_map, AList.mem_lookup_iff]
  exact ⟨fun ⟨e, he, hv⟩ => ⟨e.1, hv ▸ he⟩, fun ⟨a, ha⟩ => ⟨⟨a, v⟩, ha, rfl⟩⟩

theorem listValues_kerase (l : List (Sigma fun _ : K => V)) (a : K) :
    listValues (l.kerase a) + ((l.dlookup a).toList : Multiset V) = listValues l := by
  induction l with
  | nil => rfl
  | cons e l ih =>
    by_cases h : a = e.1
    · subst h
      obtain ⟨k, v⟩ := e
      rw [kerase_cons_eq rfl, dlookup_cons_eq, listValues_cons, add_comm]
      rfl
    · rw [kerase_cons_ne h, dlookup_cons_ne l e h, listValues_cons, listValues_cons,
        Multiset.cons_add, ih]

theorem values_erase (t : Table K V) (a : K) :
    values (t.erase a) + ((t.lookup a).toList : Multiset V) = values t :=
  listValues_kerase t.entries a

theorem values_insert (t : Table K V) (a : K) (v : V) :
    values (t.insert a v) + ((t.lookup a).toList : Multiset V) = v ::ₘ values t := by
  rw [← values_erase t a, ← Multiset.cons_add]
  rfl

theorem mem_lookup_insert (h : w ∈ (t.insert a v).lookup b) : b = a ∧ w = v ∨ w ∈ t.lookup b := by
  by_cases hab : b = a
  · subst hab
    rw [AList.lookup_insert] at h
    exact .inl ⟨rfl, (Option.mem_some_iff.mp h).symm⟩
  · rw [AList.lookup_insert_ne hab] at h
    exact .inr h

theorem mem_lookup_erase (h : w ∈ (t.erase a).lookup b) : w ∈ t.lookup b := by
  by_cases hab : b = a
  · subst hab
    rw [AList.lookup_erase] at h
    cases h
  · rwa [AList.lookup_erase_ne hab] at h

/-- Everything that the values of a table hold, `f v` for the value `v`. -/
def gather {β : Type} (f : V → Multiset β) (t : Table K V) : Multiset β := (values t).bind f

theorem gather_erase {β : Type} (f : V → Multiset β) (t : Table K V) (a : K) :
    gather f (t.erase a) + (t.lookup a).elim 0 f = gather f t := by
  rw [gather, gather, ← values_erase t a, Multiset.add_bind]
  cases t.lookup a <;> simp

theorem gather_insert {β : Type} (f : V → Multiset β) (t : Table K V) (a : K) (v : V) :
    gather f (t.insert a v) + (t.lookup a).elim 0 f = f v + gather f t := by
  have h := congrArg (Multiset.bind · f) (values_insert t a v)
  rw [gather, gather, ← Multiset.cons_bind, ← h, Multiset.add_bind]
  cases t.lookup a <;> simp

/-- The values of `l2` whose keys are in `l1`. -/
def listOverlap (l1 l2 : List (Sigma fun _ : K => V)) : List V :=
  l1.flatMap fun e => (l2.dlookup e.1).toList

/-- The values of `t2` that a union of `t1` and `t2` replaces. -/
def overlap (t1 t2 : Table K V) : List V := listOverlap t1.entries t2.entries

theorem listValues_kunion {l1 l2 : List (Sigma fun _ : K => V)} (h1 : l1.NodupKeys)
    (h2 : l2.NodupKeys) : listValues (l1.kunion l2) + (listOverlap l1 l2 : Multiset V) =
      listValues l1 + listValues l2 := by
  induction l1 generalizing l2 with
  | nil => simp [listOverlap]
  | cons e l1 ih =>
    obtain ⟨hnot, h1⟩ := nodupKeys_cons.mp h1
    -- the keys behind `e` are other ones
    have hover : listOverlap l1 (l2.kerase e.1) = listOverlap l1 l2 := by
      refine flatMap_congr fun x hx => ?_
      have hne : x.1 ≠ e.1 := fun he => hnot (he ▸ mem_keys_of_mem hx)
      rw [dlookup_kerase_ne hne]
    have hcons : (listOverlap (e :: l1) l2 : Multiset V) =
        ((l2.dlookup e.1).toList : Multiset V) + listOverlap l1 l2 := by
      simp [listOverlap]
    rw [kunion_cons, listValues_cons, listValues_cons, hcons, ← listValues_kerase l2 e.1,
      Multiset.cons_add, Multiset.cons_add, add_left_comm, ← hover, ih h1 (h2.kerase e.1)]
    congr 1
    rw [add_left_comm, add_comm ((dlookup e.1 l2).toList : Multiset V)]

theorem values_union (t1 t2 : Table K V) :
    values (t1 ∪ t2) + (overlap t1 t2 : Multiset V) = values t1 + values t2 :=
  listValues_kunion t1.nodupKeys t2.nodupKeys

theorem mem_lookup_of_union (h : v ∈ (t1 ∪ t2).lookup a) : v ∈ t1.lookup a ∨ v ∈ t2.lookup a :=
  (AList.mem_lookup_union.mp h).imp id And.right

theorem mem_overlap (h : v ∈ overlap t1 t2) : ∃ a w, w ∈ t1.lookup a ∧ v ∈ t2.lookup a := by
  obtain ⟨e, he, hv⟩ := mem_flatMap.mp h
  exact ⟨e.1, e.2, AList.mem_lookup_iff.mpr he, Option.mem_toList.mp hv⟩

end Table

end Hiqlite
