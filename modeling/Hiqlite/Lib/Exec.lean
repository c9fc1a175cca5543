import Mathlib.Tactic

/-!
# L2 — stoppable computations on a state

`Exec σ ε α` is a computation on a state `σ`. It ends with a value or is stopped by some `ε`, and
it leaves a state in both cases: what was done before the stop is not undone.

* `bind_ok`, `bind_error`, **`bind_eq_ok`**: how a sequence runs and how a finished run is taken
  apart;
* `wp`: the weakest precondition, with one postcondition for a finished computation and one for a
  stopped one; **`wp_bind`** and a rule for each primitive;
* `Keeps`: what holds of the state however the computation ends; **`Keeps.bind`**.
-/

namespace Hiqlite

/-- A computation on `σ` that may be stopped by `ε`. -/
def Exec (σ ε α : Type) : Type := σ → Except ε α × σ

namespace Exec

variable {σ τ ε α β : Type}

instance : Monad (Exec σ ε) where
  pure a := fun s => (.ok a, s)
  bind x f := fun s =>
    match x s with
    | (.ok a, s') => f a s'
    | (.error e, s') => (.error e, s')

def get : Exec σ ε σ := fun s => (.ok s, s)

def modify (f : σ → σ) : Exec σ ε Unit := fun s => (.ok (), f s)

def stop (e : ε) : Exec σ ε α := fun s => (.error e, s)

def lift : Except ε α → Exec σ ε α
  | .ok a => pure a
  | .error e => stop e

def unwrap (e : ε) : Option α → Exec σ ε α
  | some a => pure a
  | none => stop e

/-- Run `x` and hand its outcome over as a value. -/
def attempt (x : Exec σ ε α) : Exec σ ε (Except ε α) := fun s => (.ok (x s).1, (x s).2)

def zoom (get : σ → τ) (set : τ → σ → σ) (x : Exec τ ε α) : Exec σ ε α :=
  fun s => ((x (get s)).1, set (x (get s)).2 s)

variable {x : Exec σ ε α} {f : α → Exec σ ε β} {s s' : σ} {a : α} {b : β} {e : ε}

@[simp] theorem pure_apply (a : α) (s : σ) : (pure a : Exec σ ε α) s = (.ok a, s) := rfl

@[simp] theorem get_apply (s : σ) : (get : Exec σ ε σ) s = (.ok s, s) := rfl

@[simp] theorem modify_apply (g : σ → σ) (s : σ) :
    (modify g : Exec σ ε Unit) s = (.ok (), g s) := rfl

@[simp] theorem stop_apply (e : ε) (s : σ) : (stop e : Exec σ ε α) s = (.error e, s) := rfl

@[simp] theorem lift_ok (a : α) : (lift (.ok a) : Exec σ ε α) = pure a := rfl

@[simp] theorem lift_error (e : ε) : (lift (.error e) : Exec σ ε α) = stop e := rfl

@[simp] theorem unwrap_some (e : ε) (a : α) : (unwrap e (some a) : Exec σ ε α) = pure a := rfl

@[simp] theorem unwrap_none (e : ε) : (unwrap e none : Exec σ ε α) = stop e := rfl

@[simp] theorem attempt_apply (x : Exec σ ε α) (s : σ) : attempt x s = (.ok (x s).1, (x s).2) := rfl

@[simp] theorem zoom_apply (g : σ → τ) (u : τ → σ → σ) (x : Exec τ ε α) (s : σ) :
    zoom g u x s = ((x (g s)).1, u (x (g s)).2 s) := rfl

@[simp] theorem ite_apply {c : Prop} [Decidable c] (x y : Exec σ ε α) (s : σ) :
    (if c then x else y) s = if c then x s else y s := by
  split_ifs <;> rfl

theorem bind_ok (h : x s = (.ok a, s')) : (x >>= f) s = f a s' := by
  change (match x s with
    | (.ok a, s') => f a s'
    | (.error e, s') => (.error e, s')) = _
  rw [h]

theorem bind_error (h : x s = (.error e, s')) : (x >>= f) s = (.error e, s') := by
  change (match x s with
    | (.ok a, s') => f a s'
    | (.error e, s') => (.error e, s')) = _
  rw [h]

theorem bind_eq_ok : (x >>= f) s = (.ok b, s') ↔
    ∃ a s1, x s = (.ok a, s1) ∧ f a s1 = (.ok b, s') := by
  rcases hx : x s with ⟨r, s1⟩
  cases r with
  | ok a => simp [bind_ok hx]
  | error e => simp [bind_error hx]

theorem bind_congr {y : Exec σ ε α} (h : x s = y s) : (x >>= f) s = (y >>= f) s := by
  rcases hx : x s with ⟨r, s'⟩
  have hy : y s = (r, s') := h ▸ hx
  cases r with
  | ok a => rw [bind_ok hx, bind_ok hy]
  | error e => rw [bind_error hx, bind_error hy]

theorem unwrap_eq_ok {o : Option α} :
    (unwrap e o : Exec σ ε α) s = (.ok a, s') ↔ o = some a ∧ s' = s := by
  cases o <;> simp [eq_comm]

@[simp] theorem pure_bind (a : α) (f : α → Exec σ ε β) : (pure a >>= f) = f a := rfl

@[simp] theorem get_bind (f : σ → Exec σ ε β) (s : σ) : (get >>= f) s = f s s := rfl

@[simp] theorem modify_bind (g : σ → σ) (f : Unit → Exec σ ε β) (s : σ) :
    (modify g >>= f) s = f () (g s) := rfl

@[simp] theorem stop_bind (e : ε) (f : α → Exec σ ε β) : (stop e >>= f) = stop e := rfl

@[simp] theorem attempt_bind (x : Exec σ ε α) (f : Except ε α → Exec σ ε β) (s : σ) :
    (attempt x >>= f) s = f (x s).1 (x s).2 := rfl

theorem bind_assoc' {γ : Type} (x : Exec σ ε α) (f : α → Exec σ ε β) (g : β → Exec σ ε γ) :
    ((x >>= f) >>= g) = (x >>= fun a => f a >>= g) := by
  funext s
  rcases hx : x s with ⟨r, s1⟩
  cases r with
  | ok a =>
    rw [bind_ok (x := x) hx]
    rcases hf : f a s1 with ⟨r', s2⟩
    have h : (x >>= f) s = (r', s2) := by rw [bind_ok hx, hf]
    cases r' with
    | ok b => rw [bind_ok h, bind_ok hf]
    | error e => rw [bind_error h, bind_error hf]
  | error e =>
    rw [bind_error hx, bind_error (x := x >>= f) (by rw [bind_error hx])]

/-! ## Preconditions -/

/-- The computation finishes in `Q` or is stopped in `E`. -/
def wp (x : Exec σ ε α) (Q : α → σ → Prop) (E : ε → σ → Prop) (s : σ) : Prop :=
  match x s with
  | (.ok a, s') => Q a s'
  | (.error e, s') => E e s'

section Wp

variable {Q Q' : α → σ → Prop} {E E' : ε → σ → Prop}

theorem wp_of_ok (h : x s = (.ok a, s')) : wp x Q E s ↔ Q a s' := by
  rw [wp, h]

theorem wp_of_error (h : x s = (.error e, s')) : wp x Q E s ↔ E e s' := by
  rw [wp, h]

@[simp] theorem wp_pure : wp (pure a) Q E s ↔ Q a s := Iff.rfl

@[simp] theorem wp_get {Q : σ → σ → Prop} : wp get Q E s ↔ Q s s := Iff.rfl

@[simp] theorem wp_modify {g : σ → σ} {Q : Unit → σ → Prop} : wp (modify g) Q E s ↔ Q () (g s) :=
  Iff.rfl

@[simp] theorem wp_stop : wp (stop e) Q E s ↔ E e s := Iff.rfl

theorem wp_lift {r : Except ε α} (hQ : ∀ a, r = .ok a → Q a s) (hE : ∀ e, r = .error e → E e s) :
    wp (lift r) Q E s := by
  cases r with
  | ok a => exact hQ a rfl
  | error e => exact hE e rfl

theorem wp_unwrap {o : Option α} (hQ : ∀ a, o = some a → Q a s) (hE : o = none → E e s) :
    wp (unwrap e o) Q E s := by
  cases o with
  | some a => exact hQ a rfl
  | none => exact hE rfl

@[simp] theorem wp_bind {Q : β → σ → Prop} :
    wp (x >>= f) Q E s ↔ wp x (fun a => wp (f a) Q E) E s := by
  rcases hx : x s with ⟨r, s1⟩
  cases r with
  | ok a => rw [wp, bind_ok hx, wp_of_ok hx, wp]
  | error e => rw [wp_of_error (bind_error hx), wp_of_error hx]

@[simp] theorem wp_attempt {Q : Except ε α → σ → Prop} :
    wp (attempt x) Q E s ↔ wp x (fun a => Q (.ok a)) (fun e => Q (.error e)) s := by
  rcases hx : x s with ⟨r, s1⟩
  cases r with
  | ok a => rw [wp_of_ok hx, wp, attempt_apply, hx]
  | error e => rw [wp_of_error hx, wp, attempt_apply, hx]

@[simp] theorem wp_zoom {g : σ → τ} {u : τ → σ → σ} {y : Exec τ ε α} :
    wp (zoom g u y) Q E s ↔ wp y (fun a t => Q a (u t s)) (fun e t => E e (u t s)) (g s) := by
  rcases hy : y (g s) with ⟨r, t⟩
  cases r with
  | ok a => rw [wp_of_ok hy, wp, zoom_apply, hy]
  | error e => rw [wp_of_error hy, wp, zoom_apply, hy]

@[simp] theorem wp_ite {c : Prop} [Decidable c] {y : Exec σ ε α} :
    wp (if c then x else y) Q E s ↔ if c then wp x Q E s else wp y Q E s := by
  split_ifs <;> rfl

theorem wp_mono (h : wp x Q E s) (hQ : ∀ a s', Q a s' → Q' a s') (hE : ∀ e s', E e s' → E' e s') :
    wp x Q' E' s := by
  rcases hx : x s with ⟨r, s1⟩
  cases r with
  | ok a => exact (wp_of_ok hx).mpr (hQ a s1 ((wp_of_ok hx).mp h))
  | error e => exact (wp_of_error hx).mpr (hE e s1 ((wp_of_error hx).mp h))

theorem wp_imp (h : wp x Q E s) (hQ : ∀ a s', Q a s' → Q' a s') : wp x Q' E s :=
  wp_mono h hQ fun _ _ he => he

theorem wp_and (h : wp x Q E s) (h' : wp x Q' E' s) :
    wp x (fun a s' => Q a s' ∧ Q' a s') (fun e s' => E e s' ∧ E' e s') s := by
  rcases hx : x s with ⟨r, s1⟩
  cases r with
  | ok a => exact (wp_of_ok hx).mpr ⟨(wp_of_ok hx).mp h, (wp_of_ok hx).mp h'⟩
  | error e => exact (wp_of_error hx).mpr ⟨(wp_of_error hx).mp h, (wp_of_error hx).mp h'⟩

theorem eq_ok_of_wp (h : wp x (fun r t => r = a ∧ t = s') (fun _ _ => False) s) :
    x s = (.ok a, s') := by
  rcases hx : x s with ⟨r, s1⟩
  cases r with
  | ok r =>
    obtain ⟨rfl, rfl⟩ := (wp_of_ok hx).mp h
    rfl
  | error e => exact ((wp_of_error hx).mp h).elim

theorem eq_error_of_wp (h : wp x (fun _ _ => False) (fun r t => r = e ∧ t = s') s) :
    x s = (.error e, s') := by
  rcases hx : x s with ⟨r, s1⟩
  cases r with
  | ok r => exact ((wp_of_ok hx).mp h).elim
  | error r =>
    obtain ⟨rfl, rfl⟩ := (wp_of_error hx).mp h
    rfl

theorem wp_state {R : σ → Prop} (h : wp x (fun _ => R) (fun _ => R) s) : R (x s).2 := by
  rcases hx : x s with ⟨r, s1⟩
  cases r with
  | ok a => exact (wp_of_ok hx).mp h
  | error e => exact (wp_of_error hx).mp h

end Wp

/-! ## What is kept -/

/-- However the computation ends, `R` holds of the state if it did before. -/
def Keeps (R : σ → Prop) (x : Exec σ ε α) : Prop := ∀ s, R s → R (x s).2

section Keeps

variable {R : σ → Prop}

theorem keeps_pure (a : α) : Keeps R (pure a : Exec σ ε α) := fun _ h => h

theorem keeps_stop (e : ε) : Keeps R (stop e : Exec σ ε α) := fun _ h => h

theorem keeps_unwrap (e : ε) (o : Option α) : Keeps R (unwrap e o : Exec σ ε α) := by
  cases o with
  | none => exact keeps_stop e
  | some a => exact keeps_pure a

theorem keeps_modify {g : σ → σ} (h : ∀ s, R s → R (g s)) : Keeps R (modify g : Exec σ ε Unit) := h

theorem Keeps.bind (hx : Keeps R x) (hf : ∀ a, Keeps R (f a)) : Keeps R (x >>= f) := by
  intro s hs
  rcases h : x s with ⟨r, s1⟩
  have h1 : R s1 := by
    have := hx s hs
    rwa [h] at this
  cases r with
  | ok a =>
    rw [bind_ok h]
    exact hf a s1 h1
  | error e =>
    rw [bind_error h]
    exact h1

theorem Keeps.get_bind {f : σ → Exec σ ε β} (hf : ∀ s, Keeps R (f s)) : Keeps R (get >>= f) :=
  fun s hs => hf s s hs

theorem Keeps.ite {c : Prop} [Decidable c] {y : Exec σ ε α} (hx : Keeps R x) (hy : Keeps R y) :
    Keeps R (if c then x else y) := by
  split_ifs
  · exact hx
  · exact hy

end Keeps

end Exec

end Hiqlite
