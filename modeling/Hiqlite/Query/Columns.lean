import Mathlib.Tactic

/-!
# Y1 — column types and owned rows

`query/rows.rs`: what is read from a column depends on a class that is derived from its declared type.

* **`fromDeclType_eq_affinity_iff`**: when the class agrees with SQLite's rules for the affinity;
* **`column_types_iff`**; `longtext_panics`.
-/

namespace Hiqlite.Query

open List

/-! ## Stored values -/

/-- A stored value, which is also a `ValueOwned`. A text is its bytes, and `R` are the 64-bit
floats. -/
inductive Value (R : Type) where
  | null
  | integer (i : ℤ)
  | real (r : R)
  | text (b : List UInt8)
  | blob (b : List UInt8)
deriving DecidableEq

variable {R : Type}

/-- The bytes of a `String`. -/
def isUtf8 (b : List UInt8) : Bool := (ByteArray.mk b.toArray).validateUTF8

def getI64 : Value R → Option ℤ
  | .integer i => some i
  | _ => none

/-- `row.get::<_, f64>`, which also takes integers. -/
def getF64 [IntCast R] : Value R → Option R
  | .real r => some r
  | .integer i => some (i : R)
  | _ => none

def getString : Value R → Option (List UInt8)
  | .text b => if isUtf8 b then some b else none
  | _ => none

def getVec : Value R → Option (List UInt8)
  | .blob b => some b
  | _ => none

def getOption {α : Type} (get : Value R → Option α) : Value R → Option (Option α)
  | .null => some none
  | v => (get v).map some

/-! ## Owned rows -/

inductive ColumnType where
  | expr
  | integer
  | real
  | text
  | blob
deriving DecidableEq

/-- `str::to_uppercase`, of which only the ASCII part is known. -/
class Uppercase where
  upper : Char → List Char
  ascii : ∀ c : Char, c.toNat < 128 → upper c = [c.toUpper]

def Contains (t : List Char) (p : String) : Prop := p.toList <:+: t

instance (t : List Char) (p : String) : Decidable (Contains t p) :=
  inferInstanceAs (Decidable (_ <:+: _))

def toUppercase [Uppercase] (t : List Char) : List Char := t.flatMap Uppercase.upper

def fromDeclType [Uppercase] : Option (List Char) → ColumnType
  | some t =>
    if "INT".toList <+: t ∨ "int".toList <+: t then .integer
    else if t = "TEXT".toList ∨ t = "text".toList then .text
    else if t = "BLOB".toList ∨ t = "blob".toList then .blob
    else if t = "REAL".toList ∨ t = "real".toList then .real
    else if t = [] then .blob
    else
      let ty := toUppercase t
      if Contains ty "INT" then .integer
      else if Contains ty "CHAR" ∨ Contains ty "CLOB" then .text
      else if Contains ty "FLOA" ∨ Contains ty "DOUB" then .real
      else .integer
  | none => .expr

/-- One column of `RowOwned::from_row_column`, or `none` where it panics. -/
def toOwned [IntCast R] (typ : ColumnType) (v : Value R) : Option (Value R) :=
  match typ with
  | .expr =>
    -- the first conversion that works
    match getString v, getI64 v, getF64 v, getVec v with
    | some s, _, _, _ => some (.text s)
    | none, some i, _, _ => some (.integer i)
    | none, none, some r, _ => some (.real r)
    | none, none, none, some b => some (.blob b)
    | none, none, none, none => some .null
  | .integer => (getOption getI64 v).map fun o => o.elim .null .integer
  | .real => (getOption getF64 v).map fun o => o.elim .null .real
  | .text => (getOption getString v).map fun o => o.elim .null .text
  | .blob => (getOption getVec v).map fun o => o.elim .null .blob

structure Column (R : Type) where
  name : List Char
  declType : Option (List Char)
  value : Value R
deriving DecidableEq

structure ColumnOwned (R : Type) where
  name : List Char
  value : Value R
deriving DecidableEq

def Column.owned (c : Column R) : ColumnOwned R := ⟨c.name, c.value⟩

/-- `RowOwned::from_row_column`, with the types from `mapping_cols_from_stmt`. -/
def fromRowColumn [Uppercase] [IntCast R] : List (Column R) → Option (List (ColumnOwned R))
  | [] => some []
  | c :: cs => do
    let v ← toOwned (fromDeclType c.declType) c.value
    let cols ← fromRowColumn cs
    return ⟨c.name, v⟩ :: cols

/-! ## SQLite's rules -/

def asciiUpper (t : List Char) : List Char := t.map Char.toUpper

/-- The affinity of a declared type, by SQLite's rules. `NUMERIC` counts as `integer`. -/
def affinity (t : List Char) : ColumnType :=
  let u := asciiUpper t
  if Contains u "INT" then .integer
  else if Contains u "CHAR" ∨ Contains u "CLOB" ∨ Contains u "TEXT" then .text
  else if Contains u "BLOB" ∨ t = [] then .blob
  else if Contains u "REAL" ∨ Contains u "FLOA" ∨ Contains u "DOUB" then .real
  else .integer

def plainTypes : List (List Char) :=
  [[], "TEXT".toList, "text".toList, "BLOB".toList, "blob".toList, "REAL".toList, "real".toList]

/-- The declared types on which the class of the source and the affinity agree. The class looks at
the full upper case, in which a letter outside ASCII can become an ASCII one. -/
def Agrees [Uppercase] (t : List Char) : Prop :=
  let u := asciiUpper t
  let ty := toUppercase t
  Contains u "INT" ∨ t ∈ plainTypes ∨
    if Contains u "CHAR" ∨ Contains u "CLOB" then ¬ Contains ty "INT"
    else if Contains u "TEXT" then
      ¬ Contains ty "INT" ∧ (Contains ty "CHAR" ∨ Contains ty "CLOB")
    else if Contains u "BLOB" then False
    else if Contains u "REAL" ∨ Contains u "FLOA" ∨ Contains u "DOUB" then
      ¬ Contains ty "INT" ∧ ¬ (Contains ty "CHAR" ∨ Contains ty "CLOB") ∧
        (Contains ty "FLOA" ∨ Contains ty "DOUB")
    else Contains ty "INT" ∨
      ¬ (Contains ty "CHAR" ∨ Contains ty "CLOB") ∧ ¬ (Contains ty "FLOA" ∨ Contains ty "DOUB")

section

variable [Uppercase] {t : List Char}

omit [Uppercase] in
theorem toNat_lt_of_toUpper {c : Char} (h : c.toUpper.toNat < 128) : c.toNat < 128 := by
  unfold Char.toUpper at h
  split at h
  · next hc =>
    have : c.val.toNat ≤ 122 := UInt32.le_iff_toNat_le.mp hc.2
    exact lt_of_le_of_lt this (by norm_num)
  · exact h

theorem toUppercase_of_ascii (ht : ∀ c ∈ t, c.toNat < 128) : toUppercase t = asciiUpper t := by
  induction t with
  | nil => rfl
  | cons c cs ih =>
    rw [toUppercase, flatMap_cons, Uppercase.ascii c (ht c (by simp)), ← toUppercase,
      ih fun x hx => ht x (by simp [hx])]
    rfl

theorem contains_upper {p : String} (hp : ∀ c ∈ p.toList, c.toNat < 128)
    (h : Contains (asciiUpper t) p) : Contains (toUppercase t) p := by
  obtain ⟨xs, ys, he⟩ := h
  obtain ⟨t0, t2, rfl, h0, -⟩ := map_eq_append_iff.mp he.symm
  obtain ⟨t0, t1, rfl, -, h1⟩ := map_eq_append_iff.mp h0
  have hword : toUppercase t1 = p.toList := by
    rw [toUppercase_of_ascii fun c hc => ?_, asciiUpper, h1]
    exact toNat_lt_of_toUpper (hp _ (h1 ▸ mem_map_of_mem hc))
  have hsplit : toUppercase (t0 ++ t1 ++ t2) = toUppercase t0 ++ p.toList ++ toUppercase t2 := by
    rw [← hword, toUppercase, flatMap_append, flatMap_append]
    rfl
  rw [hsplit]
  exact infix_append _ _ _

omit [Uppercase] in
theorem contains_int_of_prefix (h : "INT".toList <+: t ∨ "int".toList <+: t) :
    Contains (asciiUpper t) "INT" := by
  rcases h with h | h
  · exact (h.map Char.toUpper).isInfix
  · exact (h.map Char.toUpper).isInfix

theorem fromDeclType_plain (h : t ∈ plainTypes) : fromDeclType (some t) = affinity t := by
  simp only [plainTypes, mem_cons, not_mem_nil, or_false] at h
  rcases h with rfl | rfl | rfl | rfl | rfl | rfl | rfl <;> rfl

theorem fromDeclType_of_not_plain (hplain : t ∉ plainTypes)
    (hpre : ¬ ("INT".toList <+: t ∨ "int".toList <+: t)) : fromDeclType (some t) =
      if Contains (toUppercase t) "INT" then .integer
      else if Contains (toUppercase t) "CHAR" ∨ Contains (toUppercase t) "CLOB" then .text
      else if Contains (toUppercase t) "FLOA" ∨ Contains (toUppercase t) "DOUB" then .real
      else .integer := by
  simp only [plainTypes, mem_cons, not_mem_nil, or_false, not_or] at hplain
  obtain ⟨h0, h1, h2, h3, h4, h5, h6⟩ := hplain
  rw [fromDeclType, if_neg hpre, if_neg (not_or.mpr ⟨h1, h2⟩), if_neg (not_or.mpr ⟨h3, h4⟩),
    if_neg (not_or.mpr ⟨h5, h6⟩), if_neg h0]

omit [Uppercase] in
/-- Two chains of rules with the same outcome. -/
theorem rules_agree_iff {I C F i c x b r : Prop} [Decidable I] [Decidable C] [Decidable F]
    [Decidable i] [Decidable c] [Decidable x] [Decidable b] [Decidable r] (hi : i → I)
    (hc : c → C) :
    (if I then ColumnType.integer else if C then .text else if F then .real else .integer) =
      (if i then .integer else if c ∨ x then .text else if b then .blob else if r then .real
        else .integer) ↔
      (i ∨ if c then ¬ I else if x then ¬ I ∧ C else if b then False
        else if r then ¬ I ∧ ¬ C ∧ F else I ∨ ¬ C ∧ ¬ F) := by
  by_cases h1 : i
  · simp [h1, hi h1]
  by_cases h2 : c
  · by_cases hI : I <;> simp [h1, h2, hI, hc h2]
  by_cases h3 : x
  · by_cases hI : I <;> by_cases hC : C <;> by_cases hF : F <;> simp [h1, h2, h3, hI, hC, hF]
  by_cases h4 : b
  · by_cases hI : I <;> by_cases hC : C <;> by_cases hF : F <;> simp [h1, h2, h3, h4, hI, hC, hF]
  by_cases h5 : r <;> by_cases hI : I <;> by_cases hC : C <;> by_cases hF : F <;>
    simp [h1, h2, h3, h4, h5, hI, hC, hF]

theorem fromDeclType_eq_affinity_iff : fromDeclType (some t) = affinity t ↔ Agrees t := by
  by_cases hplain : t ∈ plainTypes
  · exact ⟨fun _ => .inr (.inl hplain), fun _ => fromDeclType_plain hplain⟩
  by_cases hpre : "INT".toList <+: t ∨ "int".toList <+: t
  · have hi := contains_int_of_prefix hpre
    refine ⟨fun _ => .inl hi, fun _ => ?_⟩
    rw [fromDeclType, if_pos hpre, affinity, if_pos hi]
  have hne : t ≠ [] := fun h => hplain (by simp [plainTypes, h])
  rw [fromDeclType_of_not_plain hplain hpre, affinity, Agrees]
  simp only [hne, hplain, or_false, false_or, ← or_assoc (c := Contains (asciiUpper t) "TEXT")]
  exact rules_agree_iff (contains_upper (by simp))
    (Or.imp (contains_upper (by simp)) (contains_upper (by simp)))

end

/-! ## Rows -/

/-- The storage class of a value that is not `NULL`. -/
def Value.storage : Value R → Option ColumnType
  | .null => none
  | .integer _ => some .integer
  | .real _ => some .real
  | .text _ => some .text
  | .blob _ => some .blob

def Value.ValidText : Value R → Prop
  | .text b => isUtf8 b = true
  | _ => True

def Value.Fits (typ : ColumnType) (v : Value R) : Prop :=
  v = .null ∨ v.ValidText ∧ (typ = .expr ∨ v.storage = some typ)

theorem toOwned_eq_some_iff [IntCast R] (typ : ColumnType) (v : Value R) :
    toOwned typ v = some v ↔ v.Fits typ := by
  cases typ with
  | expr =>
    cases v with
    | text b =>
      cases hb : isUtf8 b <;>
        simp [toOwned, getI64, getF64, getString, getVec, Value.Fits, Value.ValidText, hb]
    | _ => simp [toOwned, getI64, getF64, getString, getVec, Value.Fits, Value.ValidText]
  | _ =>
    cases v <;>
      simp [toOwned, getOption, getI64, getF64, getString, getVec, Value.Fits, Value.ValidText,
        Value.storage]

section

variable [Uppercase] [IntCast R] {row : List (Column R)}

theorem fromRowColumn_eq_some_iff : fromRowColumn row = some (row.map Column.owned) ↔
    ∀ c ∈ row, c.value.Fits (fromDeclType c.declType) := by
  induction row with
  | nil => simp [fromRowColumn]
  | cons c cs ih =>
    rw [forall_mem_cons, ← ih, ← toOwned_eq_some_iff, fromRowColumn]
    cases hv : toOwned (fromDeclType c.declType) c.value with
    | none => simp
    | some v =>
      cases hcs : fromRowColumn cs with
      | none => simp
      | some cols => simp [Column.owned]

/-- **A row of values that have the affinity of their columns is read unchanged iff every declared
type agrees with SQLite's rules**, columns with `NULL` apart. -/
theorem column_types_iff (t : List Char) (row : List (Column R))
    (hrow : ∀ c ∈ row, ∃ t, c.declType = some t ∧
      (c.value = .null ∨ c.value.storage = some (affinity t))) :
    (fromDeclType (some t) = affinity t ↔ Agrees t) ∧
      (fromRowColumn row = some (row.map Column.owned) ↔
        ∀ c ∈ row, c.value = .null ∨ c.value.ValidText ∧ ∀ t ∈ c.declType, Agrees t) := by
  refine ⟨fromDeclType_eq_affinity_iff, ?_⟩
  rw [fromRowColumn_eq_some_iff]
  refine forall₂_congr fun c hc => ?_
  obtain ⟨t, ht, hv⟩ := hrow c hc
  rw [Value.Fits]
  by_cases hnull : c.value = .null
  · simp [hnull]
  · have hst := hv.resolve_left hnull
    have hclass : fromDeclType (some t) ≠ .expr := by
      simp only [fromDeclType]
      split_ifs <;> decide
    simp [hnull, ht, hst, hclass, ← fromDeclType_eq_affinity_iff, eq_comm]

end

@[reducible] def asciiOnly : Uppercase := ⟨fun c => [c.toUpper], fun _ _ => rfl⟩

/-- A row whose types agree. -/
theorem column_types_iff_two : let := asciiOnly
    fromRowColumn (R := ℤ) [⟨['i'], some "BIGINT".toList, .integer 1⟩,
      ⟨['s'], some "VARCHAR(8)".toList, .text [104, 105]⟩] =
      some [⟨['i'], .integer 1⟩, ⟨['s'], .text [104, 105]⟩] := by
  intro _
  have hrow : ∀ c ∈ ([⟨['i'], some "BIGINT".toList, .integer 1⟩,
      ⟨['s'], some "VARCHAR(8)".toList, .text [104, 105]⟩] : List (Column ℤ)), ∃ t,
      c.declType = some t ∧ (c.value = .null ∨ c.value.storage = some (affinity t)) := by
    intro c hc
    simp only [mem_cons, not_mem_nil, or_false] at hc
    rcases hc with rfl | rfl <;> exact ⟨_, rfl, .inr (by decide +kernel)⟩
  refine (column_types_iff [] _ hrow).2.mpr fun c hc => .inr ?_
  simp only [mem_cons, not_mem_nil, or_false] at hc
  rcases hc with rfl | rfl
  · exact ⟨trivial, fun t ht => by cases ht; exact .inl (by decide +kernel)⟩
  · refine ⟨show isUtf8 _ = true by decide +kernel, fun t ht => ?_⟩
    cases ht
    exact fromDeclType_eq_affinity_iff.mp (by decide +kernel)

/-- **Types that are common in other databases**: their affinity is `TEXT` or `BLOB`, their
class is not, and a stored value of that affinity makes the conversion panic. -/
theorem longtext_panics : let := asciiOnly
    ∀ c ∈ ([(⟨['a'], some "LONGTEXT".toList, .text [104, 105]⟩, .text),
      (⟨['a'], some "LONGBLOB".toList, .blob [0]⟩, .blob),
      (⟨['a'], some "BLOB FLOAT".toList, .blob [0]⟩, .blob)] : List (Column ℤ × ColumnType)),
      c.1.declType.map affinity = some c.2 ∧ c.1.value.storage = some c.2 ∧
        fromDeclType c.1.declType ≠ c.2 ∧ fromRowColumn [c.1] = none := by
  decide +kernel

end Hiqlite.Query
