import Mathlib.Tactic

/-!
# L15 — a connection with one transaction

A connection writes to the file, or to a copy of it while a transaction is open. A failing statement
may roll the transaction back on its own, and what runs after it is written to the file at once.

* **`Program.run_cases`**, **`Program.run_preserves`**, **`Program.run_took`**.
-/

namespace Hiqlite

structure Session (D : Type) where
  file : D
  txn : Option D

inductive Session.Reply (D R : Type)
  | done (d : D) (r : R)
  | failed (d : D) (e : String)
  | ended (e : String)

/-- Statements `S` whose results decide how to go on. -/
inductive Program (S R ε α : Type)
  | finish (r : Except ε α)
  | exec (st : S) (k : Except String R → Program S R ε α)

variable {D S R ε α : Type}

namespace Session

def view (s : Session D) : D := s.txn.getD s.file

def write (s : Session D) (d : D) : Session D :=
  match s.txn with
  | none => { s with file := d }
  | some _ => { s with txn := some d }

def begin (s : Session D) : Option (Session D) :=
  match s.txn with
  | none => some { s with txn := some s.file }
  | some _ => none

def commit (s : Session D) : Option (Session D) :=
  s.txn.map fun d => ⟨d, none⟩

def rollback (s : Session D) : Session D := { s with txn := none }

def exec (sem : D → Reply D R) (s : Session D) : Except String R × Session D :=
  match sem s.view with
  | .done d r => (.ok r, s.write d)
  | .failed d e => (.error e, s.write d)
  | .ended e => (.error e, s.rollback)

variable {s : Session D} {d : D} {sem : D → Reply D R}

@[simp] theorem view_idle (d : D) : view ⟨d, none⟩ = d := rfl

@[simp] theorem view_open (f d : D) : view ⟨f, some d⟩ = d := rfl

@[simp] theorem write_idle (d d' : D) : write ⟨d, none⟩ d' = ⟨d', none⟩ := rfl

@[simp] theorem write_open (f d d' : D) : write ⟨f, some d⟩ d' = ⟨f, some d'⟩ := rfl

@[simp] theorem view_write (s : Session D) (d : D) : (s.write d).view = d := by
  obtain ⟨f, t⟩ := s
  cases t <;> rfl

@[simp] theorem write_write (s : Session D) (d d' : D) : (s.write d).write d' = s.write d' := by
  obtain ⟨f, t⟩ := s
  cases t <;> rfl

@[simp] theorem write_view (s : Session D) : s.write s.view = s := by
  obtain ⟨f, t⟩ := s
  cases t <;> rfl

@[simp] theorem commit_idle (d : D) : commit ⟨d, none⟩ = none := rfl

@[simp] theorem commit_open (f d : D) : commit ⟨f, some d⟩ = some ⟨d, none⟩ := rfl

@[simp] theorem rollback_mk (f : D) (t : Option D) : rollback ⟨f, t⟩ = ⟨f, none⟩ := rfl

theorem exec_cases (sem : D → Reply D R) (f : D) (t : Option D) :
    ((exec sem ⟨f, t⟩).2.txn = none) ∨ t ≠ none ∧ (exec sem ⟨f, t⟩).2.file = f := by
  cases t with
  | none =>
    left
    unfold exec
    split <;> rfl
  | some d =>
    unfold exec
    split
    · exact .inr ⟨nofun, rfl⟩
    · exact .inr ⟨nofun, rfl⟩
    · exact .inl rfl

end Session

/-! ## Programs -/

namespace Program

variable (sem : S → D → Session.Reply D R)

def run : Program S R ε α → Session D → Except ε α × Session D
  | .finish r, s => (r, s)
  | .exec st k, s => (k (s.exec (sem st)).1).run (s.exec (sem st)).2

def log : Program S R ε α → Session D → List (S × Except String R)
  | .finish _, _ => []
  | .exec st k, s => (st, (s.exec (sem st)).1) :: (k (s.exec (sem st)).1).log (s.exec (sem st)).2

/-- The statements took effect one after the other, as far as each one reported. -/
inductive Took : D → List (S × Except String R) → D → Prop
  | nil (d : D) : Took d [] d
  | done {d d' d'' : D} {st : S} {r : R} {l : List (S × Except String R)}
      (h : sem st d = .done d' r) (hl : Took d' l d'') : Took d ((st, .ok r) :: l) d''
  | failed {d d' d'' : D} {st : S} {e : String} {l : List (S × Except String R)}
      (h : sem st d = .failed d' e) (hl : Took d' l d'') : Took d ((st, .error e) :: l) d''

variable {sem} {p : Program S R ε α} {s : Session D} {d d' f : D}

theorem run_idle (h : s.txn = none) : (p.run sem s).2.txn = none := by
  induction p generalizing s with
  | finish r => exact h
  | exec st k ih =>
    obtain ⟨f, t⟩ := s
    obtain rfl : t = none := h
    refine ih _ ?_
    rcases Session.exec_cases (sem st) f none with hnone | ⟨hne, -⟩
    · exact hnone
    · exact absurd rfl hne

/-- **A program ends the transaction or leaves the file as it is.** -/
theorem run_cases (p : Program S R ε α) (sem : S → D → Session.Reply D R) (s : Session D) :
    (p.run sem s).2.txn = none ∨ (p.run sem s).2.file = s.file := by
  induction p generalizing s with
  | finish r => exact .inr rfl
  | exec st k ih =>
    rcases Session.exec_cases (sem st) s.file s.txn with hnone | ⟨-, hfile⟩
    · exact .inl (run_idle (p := k _) (s := (s.exec (sem st)).2) hnone)
    · rcases ih _ (s.exec (sem st)).2 with hnone | hk
      · exact .inl hnone
      · exact .inr (hk.trans hfile)

theorem run_preserves {I : D → Prop} (hdone : ∀ st d d' r, I d → sem st d = .done d' r → I d')
    (hfailed : ∀ st d d' e, I d → sem st d = .failed d' e → I d') (p : Program S R ε α)
    (hfile : I s.file) (hview : I s.view) : I (p.run sem s).2.file ∧ I (p.run sem s).2.view := by
  have hwrite : ∀ (s : Session D) d, I s.file → I d → I (s.write d).file ∧ I (s.write d).view := by
    rintro ⟨f, t⟩ d hf hd
    cases t with
    | none => exact ⟨hd, hd⟩
    | some _ => exact ⟨hf, hd⟩
  induction p generalizing s with
  | finish r => exact ⟨hfile, hview⟩
  | exec st k ih =>
    have hstep : I (s.exec (sem st)).2.file ∧ I (s.exec (sem st)).2.view := by
      unfold Session.exec
      cases hst : sem st s.view with
      | done d r => exact hwrite s d hfile (hdone st _ d r hview hst)
      | failed d e => exact hwrite s d hfile (hfailed st _ d e hview hst)
      | ended e => exact ⟨hfile, hfile⟩
    exact ih _ hstep.1 hstep.2

theorem run_took (p : Program S R ε α) (f d : D) (h : (p.run sem ⟨f, some d⟩).2.txn = some d') :
    Took sem d (p.log sem ⟨f, some d⟩) d' := by
  induction p generalizing d with
  | finish r =>
    obtain rfl : d = d' := Option.some.inj h
    exact .nil d
  | exec st k ih =>
    simp only [run, log] at h ⊢
    unfold Session.exec at h ⊢
    simp only [Session.view_open, Session.write_open] at h ⊢
    cases hst : sem st d with
    | done d1 r =>
      rw [hst] at h
      exact .done hst (ih _ d1 h)
    | failed d1 e =>
      rw [hst] at h
      exact .failed hst (ih _ d1 h)
    | ended e =>
      rw [hst] at h
      rw [run_idle (s := Session.rollback ⟨f, some d⟩) rfl] at h
      cases h

end Program

end Hiqlite
