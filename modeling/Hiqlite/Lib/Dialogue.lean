import Hiqlite.Lib.Effect

/-!
# L13 — programs that ask a server

A program asks a server one thing after the other and goes on with what comes back, or panics. Of the
server only the answers are known that it may give.

* `Safe`: whatever comes back, every question is fair and the program ends without a panic;
  **`safe_bind`**: a sequence; `Safe.first`: the first question is fair;
* `outcomes`: the program among the effects of its questions; **`mem_outcomes_bind`**.
-/

namespace Hiqlite

/-- A program with the questions `Q`, the answers `R` and the result `α`. -/
inductive Dialogue (Q R α : Type)
  | done (a : α)
  | panicked
  | ask (q : Q) (next : R → Dialogue Q R α)

namespace Dialogue

variable {Q R α β : Type}

def bind : Dialogue Q R α → (α → Dialogue Q R β) → Dialogue Q R β
  | done a, f => f a
  | panicked, _ => panicked
  | ask q next, f => ask q fun r => (next r).bind f

instance : Monad (Dialogue Q R) where
  pure := done
  bind := bind

def send (q : Q) : Dialogue Q R R := ask q done

/-- Every question of the program is `fair`, it does not panic, and its result is in `P`, as long as
every answer is one that the server `may` give. -/
def Safe (fair : Q → Prop) (may : Q → R → Prop) (P : α → Prop) : Dialogue Q R α → Prop
  | done a => P a
  | panicked => False
  | ask q next => fair q ∧ ∀ r, may q r → (next r).Safe fair may P

variable {fair : Q → Prop} {may : Q → R → Prop} {P P' : α → Prop} {x : Dialogue Q R α} {q : Q}

/-- **A sequence** is safe iff the second part is safe after every result of the first one. -/
theorem safe_bind {f : α → Dialogue Q R β} {P : β → Prop} :
    (x >>= f).Safe fair may P ↔ x.Safe fair may fun a => (f a).Safe fair may P := by
  induction x with
  | done | panicked => exact Iff.rfl
  | ask q next ih => exact and_congr_right fun _ => forall₂_congr fun r _ => ih r

theorem Safe.mono (h : x.Safe fair may P) (hP : ∀ a, P a → P' a) : x.Safe fair may P' := by
  induction x with
  | done a => exact hP a h
  | panicked => exact h
  | ask q next ih => exact ⟨h.1, fun r hr => ih r (h.2 r hr)⟩

def first : Dialogue Q R α → Option Q
  | ask q _ => some q
  | _ => none

theorem Safe.first (h : x.Safe fair may P) (hq : x.first = some q) : fair q := by
  cases x with
  | ask q' next =>
    cases hq
    exact h.1
  | _ => cases hq

/-- The outcomes of a program whose questions have the outcomes `server`. A panic gives `fail`. -/
def outcomes (server : Q → Effect R) (fail : α) : Dialogue Q R α → Effect α
  | done a => pure a
  | panicked => pure fail
  | ask q next => server q >>= fun r => (next r).outcomes server fail

/-- **A sequence** has no other outcomes than those of its parts, if it passes a panic on. -/
theorem mem_outcomes_bind {server : Q → Effect R} (fail : α) {fail' : β}
    {f : α → Dialogue Q R β} (hf : (fail', 0) ∈ (f fail).outcomes server fail') {p : β × ℕ}
    (hp : p ∈ (x >>= f).outcomes server fail') :
    p ∈ x.outcomes server fail >>= fun a => (f a).outcomes server fail' := by
  induction x generalizing p with
  | done a => exact ⟨a, 0, p.2, rfl, hp, (Nat.zero_add _).symm⟩
  | panicked =>
    cases hp
    exact ⟨fail, 0, 0, rfl, hf, rfl⟩
  | ask q next ih =>
    obtain ⟨r, m, n, hr, hn, hsum⟩ := hp
    obtain ⟨a, m', n', ha, hb, hsum'⟩ := ih r hn
    exact ⟨a, m + m', n', ⟨r, m, m', hr, ha, rfl⟩, hb, by simp only at hsum'; omega⟩

end Dialogue

end Hiqlite
