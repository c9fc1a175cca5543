import Hiqlite.Lib.SwapRemove
import Hiqlite.Query.Columns

/-!
# Y2 — reading rows locally and remotely

`query/rows.rs`, `Row::try_get`: a local client reads from the row of the statement, a remote one
from an owned row, out of which every read takes its column.

* **`rows_read_same`**; `owned_rows_differ`.
-/

namespace Hiqlite.Query

open List

variable {R : Type}

/-! ## Conversions -/

/-- `i64`, `String` or `Vec<u8>`. -/
inductive Kind where
  | i64
  | string
  | vec
deriving DecidableEq

/-- The type that is asked for: one of the three, or an `Option` of it. -/
structure Wanted where
  kind : Kind
  optional : Bool
deriving DecidableEq

inductive Atom where
  | int (i : ℤ)
  | str (b : List UInt8)
  | bytes (b : List UInt8)
deriving DecidableEq

/-- An error, or a value, which is `none` for the `None` of an `Option`. -/
abbrev Answer := Option (Option Atom)

def fromSql (w : Wanted) (v : Value R) : Answer :=
  let get : Value R → Option Atom := fun v =>
    match w.kind with
    | .i64 => (getI64 v).map .int
    | .string => (getString v).map .str
    | .vec => (getVec v).map .bytes
  if w.optional then getOption get v else (get v).map some

def Kind.tryFrom : Kind → Value R → Option Atom
  | .i64, .integer i => some (.int i)
  | .string, .text b => some (.str b)
  | .vec, .blob b => some (.bytes b)
  | _, _ => none

def tryFrom (w : Wanted) (v : Value R) : Answer :=
  match w.optional, v with
  | true, .null => some none
  | _, v => (w.kind.tryFrom v).map some

theorem tryFrom_eq_fromSql (w : Wanted) {v : Value R} (hv : v.ValidText) :
    tryFrom w v = fromSql w v := by
  obtain ⟨kind, optional⟩ := w
  cases v with
  | text b =>
    have hb : isUtf8 b = true := hv
    cases optional <;> cases kind <;>
      simp [tryFrom, fromSql, Kind.tryFrom, getOption, getI64, getString, getVec, hb]
  | _ =>
    cases optional <;> cases kind <;>
      simp [tryFrom, fromSql, Kind.tryFrom, getOption, getI64, getString, getVec]

/-! ## Reads -/

def eqIgnoreAsciiCase (a b : List Char) : Bool := decide (a.map Char.toLower = b.map Char.toLower)

/-- `Row::Borrowed(r) => r.get(idx)`: the first column of that name. -/
def borrowedTryGet (row : List (Column R)) (idx : List Char) (w : Wanted) : Answer :=
  match row.find? fun c => eqIgnoreAsciiCase c.name idx with
  | some c => fromSql w c.value
  | none => none

/-- `RowOwned::try_get`, and the columns that are left. -/
def ownedTryGet (columns : List (ColumnOwned R)) (idx : List Char) (w : Wanted) :
    Answer × List (ColumnOwned R) :=
  match columns.findIdx? fun c => c.name = idx with
  | some i =>
    match swapRemove columns i with
    | some (c, rest) => (tryFrom w c.value, rest)
    | none => (none, columns)
  | none => (none, columns)

abbrev Read := List Char × Wanted

def borrowedAnswers (row : List (Column R)) (reads : List Read) : List Answer :=
  reads.map fun q => borrowedTryGet row q.1 q.2

def ownedAnswers : List (ColumnOwned R) → List Read → List Answer
  | _, [] => []
  | columns, q :: reads =>
    (ownedTryGet columns q.1 q.2).1 :: ownedAnswers (ownedTryGet columns q.1 q.2).2 reads

/-! ## A read of an owned row -/

variable {columns : List (ColumnOwned R)} {idx : List Char} {w : Wanted}

theorem ownedTryGet_missing (h : ∀ c ∈ columns, c.name ≠ idx) :
    ownedTryGet columns idx w = (none, columns) := by
  have : (columns.findIdx? fun c => c.name = idx) = none := by
    rw [findIdx?_eq_none_iff]
    simpa using h
  rw [ownedTryGet, this]

theorem ownedTryGet_found {c : ColumnOwned R} (h : columns.filter (fun c => c.name = idx) = [c]) :
    ∃ rest, ownedTryGet columns idx w = (tryFrom w c.value, rest) ∧
      rest.Perm (columns.filter fun c => c.name ≠ idx) := by
  obtain ⟨xs, ys, rfl, hx, hc, hy⟩ := filter_eq_cons_iff.mp h
  rw [filter_eq_nil_iff] at hy
  have hidx : ((xs ++ c :: ys).findIdx? fun c => decide (c.name = idx)) = some xs.length := by
    have hnone : (xs.findIdx? fun c => decide (c.name = idx)) = none := by
      rw [findIdx?_eq_none_iff]
      simpa using hx
    rw [findIdx?_append, hnone, findIdx?_cons, if_pos hc]
    simp
  obtain ⟨zs, hperm, hrem⟩ := exists_swapRemove xs c ys
  refine ⟨xs ++ zs, by simp only [ownedTryGet, hidx, hrem], ?_⟩
  have hother : (xs ++ c :: ys).filter (fun c => c.name ≠ idx) = xs ++ ys := by
    rw [filter_append, filter_cons_of_neg (by simpa using hc),
      filter_eq_self.mpr (by simpa using hx), filter_eq_self.mpr (by simpa using hy)]
  rw [hother]
  exact hperm.append_left xs

/-! ## Sequences of reads -/

/-- A read of a column that is there at most once, whatever the case, that is named exactly and was
not read before; or of a column that is not there. -/
structure Clear (row : List (Column R)) (before : List Read) (q : Read) : Prop where
  once : (row.filter fun c => eqIgnoreAsciiCase c.name q.1).length ≤ 1
  spelled : ∀ c ∈ row, eqIgnoreAsciiCase c.name q.1 = true → c.name = q.1
  unread : ∀ c ∈ row, c.name = q.1 → q.1 ∉ before.map Prod.fst

def unread (row : List (Column R)) (before : List Read) : List (ColumnOwned R) :=
  (row.map Column.owned).filter fun c => c.name ∉ before.map Prod.fst

variable {row : List (Column R)} {before : List Read} {q : Read}

theorem eqIgnoreAsciiCase_self (a : List Char) : eqIgnoreAsciiCase a a = true := by
  simp [eqIgnoreAsciiCase]

theorem unread_concat : unread row (before ++ [q]) =
    (unread row before).filter fun c => c.name ≠ q.1 := by
  rw [unread, unread, filter_filter]
  refine filter_congr fun c _ => ?_
  simp only [map_append, map_cons, map_nil, mem_append, mem_singleton]
  by_cases h : c.name = q.1 <;> simp [h]

theorem clear_read (hv : ∀ c ∈ row, c.value.ValidText) (hq : Clear row before q)
    (hcols : columns.Perm (unread row before)) :
    (ownedTryGet columns q.1 q.2).1 = borrowedTryGet row q.1 q.2 ∧
      (ownedTryGet columns q.1 q.2).2.Perm (unread row (before ++ [q])) := by
  cases hf : row.filter fun c => eqIgnoreAsciiCase c.name q.1 with
  | nil =>
    -- there is no such column
    have hno : ∀ c ∈ row, eqIgnoreAsciiCase c.name q.1 = false := by
      simpa [filter_eq_nil_iff] using hf
    have hmiss : ∀ c ∈ unread row before, c.name ≠ q.1 := by
      intro c hc hname
      obtain ⟨a, ha, rfl⟩ := mem_map.mp (mem_filter.mp hc).1
      have := hno a ha
      rw [show a.name = q.1 from hname, eqIgnoreAsciiCase_self] at this
      cases this
    rw [ownedTryGet_missing fun c hc => hmiss c (hcols.mem_iff.mp hc), borrowedTryGet,
      find?_eq_none.mpr (by simpa using hno), unread_concat,
      filter_eq_self.mpr (by simpa using hmiss)]
    exact ⟨rfl, hcols⟩
  | cons c cs =>
    obtain rfl : cs = [] := by
      have := hq.once
      rw [hf, length_cons] at this
      exact length_eq_zero_iff.mp (by omega)
    have hc : c ∈ row ∧ eqIgnoreAsciiCase c.name q.1 = true :=
      mem_filter.mp (hf ▸ mem_singleton_self c)
    have hname : c.name = q.1 := hq.spelled c hc.1 hc.2
    have hfind : row.find? (fun c => eqIgnoreAsciiCase c.name q.1) = some c := by
      rw [← head?_filter, hf]
      rfl
    have hsame : row.filter (fun c => c.name = q.1) = [c] := by
      rw [← hf]
      refine filter_congr fun a ha => ?_
      rw [Bool.eq_iff_iff, decide_eq_true_iff]
      exact ⟨fun h => h ▸ eqIgnoreAsciiCase_self _, hq.spelled a ha⟩
    have hfilter : (unread row before).filter (fun c => c.name = q.1) = [c.owned] := by
      have hmap : (row.map Column.owned).filter (fun c => c.name = q.1) = [c.owned] := by
        rw [filter_map]
        exact congrArg (map Column.owned) hsame
      rw [unread, filter_filter, ← hmap]
      refine filter_congr fun a _ => ?_
      by_cases h : a.name = q.1
      · simpa [h] using hq.unread c hc.1 hname
      · simp [h]
    have hone : columns.filter (fun c => c.name = q.1) = [c.owned] := by
      rw [← perm_singleton, ← hfilter]
      exact hcols.filter _
    obtain ⟨rest, hget, hrest⟩ := ownedTryGet_found (w := q.2) hone
    rw [hget, borrowedTryGet, hfind, unread_concat]
    exact ⟨tryFrom_eq_fromSql q.2 (hv c hc.1), hrest.trans (hcols.filter _)⟩

theorem answers_eq (before : List Read) (hv : ∀ c ∈ row, c.value.ValidText) {reads : List Read}
    (hcols : columns.Perm (unread row before))
    (hclear : ∀ xs q ys, reads = xs ++ q :: ys → Clear row (before ++ xs) q) :
    ownedAnswers columns reads = borrowedAnswers row reads := by
  induction reads generalizing columns before with
  | nil => rfl
  | cons q reads ih =>
    obtain ⟨hfirst, hrest⟩ := clear_read hv (by simpa using hclear [] q reads rfl) hcols
    rw [ownedAnswers, hfirst, ih _ hrest fun xs r ys h => ?_]
    · rfl
    · simpa using hclear (q :: xs) r ys (by rw [h]; rfl)

section

variable [Uppercase] [IntCast R]

/-- **Rows read the same locally and remotely**, if every value fits the class of its column, and
no read depends on the reads before it. -/
theorem rows_read_same (row : List (Column R))
    (hfit : ∀ c ∈ row, c.value.Fits (fromDeclType c.declType)) (reads : List Read)
    (hclear : ∀ xs q ys, reads = xs ++ q :: ys → Clear row xs q) :
    ∃ columns, fromRowColumn row = some columns ∧
      ownedAnswers columns reads = borrowedAnswers row reads := by
  refine ⟨_, fromRowColumn_eq_some_iff.mpr hfit, ?_⟩
  have hv : ∀ c ∈ row, c.value.ValidText := by
    intro c hc
    rcases hfit c hc with hn | ⟨h, -⟩
    · rw [hn]
      trivial
    · exact h
  exact answers_eq [] hv (by simp [unread]) (by simpa using hclear)

end

/-- Two columns, read in the other order. -/
theorem rows_read_same_two : let := asciiOnly
    let row : List (Column ℤ) := [⟨['a'], none, .integer 1⟩, ⟨['b'], none, .text [104]⟩]
    let reads : List Read := [(['b'], ⟨.string, false⟩), (['a'], ⟨.i64, true⟩)]
    ∃ columns, fromRowColumn row = some columns ∧
      ownedAnswers columns reads = borrowedAnswers row reads := by
  intro _ row reads
  refine rows_read_same row (fun c hc => .inr ⟨?_, .inl ?_⟩) reads fun xs q ys h => ?_
  · simp only [row, mem_cons, not_mem_nil, or_false] at hc
    rcases hc with rfl | rfl
    · trivial
    · exact show isUtf8 _ = true by decide +kernel
  · simp only [row, mem_cons, not_mem_nil, or_false] at hc
    rcases hc with rfl | rfl <;> rfl
  · rcases xs with _ | ⟨x, _ | ⟨y, xs⟩⟩
    · obtain ⟨rfl, -⟩ := cons.inj h
      exact ⟨by decide, by decide, by decide⟩
    · obtain ⟨rfl, htail⟩ := cons.inj h
      obtain ⟨rfl, -⟩ := cons.inj htail
      exact ⟨by decide, by decide, by decide⟩
    · simp [reads] at h

/-- **Reads whose answers differ**: the same column twice, a name in another case, a column that is
there twice, and a stored `REAL` in a column of type `DECIMAL`. -/
theorem owned_rows_differ : let := asciiOnly
    let int : Wanted := ⟨.i64, false⟩
    let x : Column ℚ := ⟨['x'], some "INTEGER".toList, .integer 0⟩
    let a : Column ℚ := ⟨['a'], some "INTEGER".toList, .integer 1⟩
    let a' : Column ℚ := ⟨['a'], some "INTEGER".toList, .integer 2⟩
    (∀ row reads answers, (row, reads, answers) ∈
        [([a], [(['a'], int), (['a'], int)], [some (some (.int 1)), none]),
          ([a], [(['A'], int)], [none]),
          ([x, a, a'], [(['x'], int), (['a'], int)],
            [some (some (.int 0)), some (some (.int 2))])] →
      (fromRowColumn row).map (ownedAnswers · reads) = some answers ∧
        borrowedAnswers row reads ≠ answers) ∧
      fromRowColumn [x, ⟨['d'], some "DECIMAL".toList, .real (3 / 2)⟩] = none ∧
        borrowedAnswers [x, ⟨['d'], some "DECIMAL".toList, .real (3 / 2)⟩] [(['x'], int)] =
          [some (some (.int 0))] := by
  intro _ int x a a'
  refine ⟨fun row reads answers h => ?_, by decide +kernel, by decide +kernel⟩
  simp only [mem_cons, Prod.mk.injEq, not_mem_nil, or_false] at h
  rcases h with ⟨rfl, rfl, rfl⟩ | ⟨rfl, rfl, rfl⟩ | ⟨rfl, rfl, rfl⟩ <;> decide +kernel

end Hiqlite.Query
