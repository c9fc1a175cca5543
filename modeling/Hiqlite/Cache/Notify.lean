import Hiqlite.Lib.SwapRemove

/-!
# E7 — notifications to listeners

`notify_handler.rs`: one task hands every notification to all listeners and to the local channel. A
listener whose receiver is gone is removed by `swap_remove`.

* **`handle_notify`**: one notification; **`notifications_exactly_once`**.
-/

namespace Hiqlite.Notify

open List

/-! ## The handler -/

abbrev Notification := ℤ × List UInt8

variable {α : Type} [DecidableEq α]

/-- `NotifyRequest`. A listener is known by its channel `α`. -/
inductive Request (α : Type) where
  | notify (n : Notification)
  | listen (tx : α)
deriving DecidableEq

inductive Target (α : Type) where
  | listener (tx : α)
  | localTx
deriving DecidableEq

/-- Waiting for requests, ended by `break`, or ended by a panic. -/
inductive Status where
  | running
  | exited
  | panicked
deriving DecidableEq

/-- The task, the channels without a receiver, and what was sent. -/
structure Handler (α : Type) where
  listeners : List α
  removeIndexes : List ℕ
  gone : List α
  localGone : Bool
  sent : List (Target α × Notification)
  status : Status
deriving DecidableEq

namespace Handler

def init : Handler α := ⟨[], [], [], false, [], .running⟩

def isGone (h : Handler α) (tx : α) : Bool := decide (tx ∈ h.gone)

def sendAll (n : Notification) : List α → ℕ → Handler α → Handler α
  | [], _, h => h
  | tx :: rest, idx, h =>
    if h.isGone tx then sendAll n rest (idx + 1) { h with removeIndexes := h.removeIndexes ++ [idx] }
    else sendAll n rest (idx + 1) { h with sent := h.sent ++ [(.listener tx, n)] }

/-- The loop that takes positions off the back of `remove_indexes`. -/
def removeDead (h : Handler α) : Handler α :=
  match removeAll h.removeIndexes.reverse h.listeners with
  | some ls => { h with listeners := ls, removeIndexes := [] }
  | none => { h with status := .panicked }

def sendLocal (n : Notification) (h : Handler α) : Handler α :=
  if h.localGone then { h with status := .exited }
  else { h with sent := h.sent ++ [(.localTx, n)] }

def handle (h : Handler α) : Request α → Handler α
  | .notify n =>
    let h := if h.listeners.isEmpty then h else (sendAll n h.listeners 0 h).removeDead
    if h.status = .panicked then h else h.sendLocal n
  | .listen tx => { h with listeners := h.listeners ++ [tx] }

end Handler

/-- A request, or a receiver that is dropped between two requests. -/
inductive Happening (α : Type) where
  | request (r : Request α)
  | drop (tx : α)
  | dropLocal
deriving DecidableEq

def Handler.step (h : Handler α) : Happening α → Handler α
  | .request r => if h.status = .running then h.handle r else h
  | .drop tx => { h with gone := tx :: h.gone }
  | .dropLocal => { h with localGone := true }

def run (es : List (Happening α)) : Handler α := es.foldl Handler.step .init

def Handler.received (h : Handler α) (t : Target α) : List Notification :=
  h.sent.filterMap fun x => if x.1 = t then some x.2 else none

/-! ## One notification -/

namespace Handler

variable {h : Handler α} {n : Notification}

/-- The loop over the listeners sends to those with a receiver and collects the positions of the
others. -/
theorem sendAll_eq (n : Notification) (ls : List α) (idx : ℕ) (h : Handler α) :
    sendAll n ls idx h = { h with
      removeIndexes := h.removeIndexes ++
        ((ls.zipIdx idx).filter fun x => h.isGone x.1).map Prod.snd
      sent := h.sent ++ (ls.filter fun tx => !h.isGone tx).map fun tx => (.listener tx, n) } := by
  induction ls generalizing idx h with
  | nil => simp [sendAll]
  | cons tx rest ih =>
    rw [sendAll, ih, ih]
    cases hg : h.isGone tx with
    | true | false => simp [isGone] at hg; simp [isGone, hg]

/-- **One notification** is sent once to each listener with a receiver, which stays, and to the
local channel. -/
theorem handle_notify (hidx : h.removeIndexes = []) (hrun : h.status = .running) :
    ∃ ls, ls.Perm (h.listeners.filter fun tx => !h.isGone tx) ∧
      h.handle (.notify n) = sendLocal n { h with
        listeners := ls
        sent := h.sent ++
          (h.listeners.filter fun tx => !h.isGone tx).map fun tx => (.listener tx, n) } := by
  by_cases hempty : h.listeners.isEmpty = true
  · have hnil : h.listeners = [] := isEmpty_iff.mp hempty
    have hself : ({ h with
        listeners := []
        sent := h.sent ++
          (h.listeners.filter fun tx => !h.isGone tx).map fun tx => (.listener tx, n) } :
        Handler α) = h := by
      rw [hnil, filter_nil, map_nil, append_nil, ← hnil]
    refine ⟨[], by simp [hnil], ?_⟩
    rw [hself]
    simp only [handle, hempty, hrun, if_true, reduceCtorEq, if_false]
  · obtain ⟨ls, hls, hperm⟩ := removeAll_positions (p := h.isGone) h.listeners [] (by simp)
    rw [append_nil] at hls hperm
    refine ⟨ls, hperm, ?_⟩
    have hdead : (sendAll n h.listeners 0 h).removeDead = { h with
        listeners := ls
        sent := h.sent ++
          (h.listeners.filter fun tx => !h.isGone tx).map fun tx => (.listener tx, n) } := by
      rw [positions] at hls
      rw [sendAll_eq, removeDead]
      simp only [hidx, nil_append, hls]
    simp only [handle, hempty, hdead, hrun, Bool.false_eq_true, if_false, reduceCtorEq]

end Handler

/-! ## The audience -/

/-- The subscriptions, the receivers that are gone, and whether the task has ended. -/
structure Audience (α : Type) where
  subs : List α
  gone : List α
  localGone : Bool
  ended : Bool

namespace Audience

def init : Audience α := ⟨[], [], false, false⟩

/-- How often a notification is due. -/
def owed (a : Audience α) : Target α → ℕ
  | .listener tx => if tx ∈ a.gone then 0 else a.subs.count tx
  | .localTx => if a.localGone then 0 else 1

/-- A notification that does not reach the local channel ends the task. -/
def step (a : Audience α) : Happening α → Audience α
  | .request (.notify _) => { a with ended := a.ended || a.localGone }
  | .request (.listen tx) => if a.ended then a else { a with subs := a.subs ++ [tx] }
  | .drop tx => { a with gone := tx :: a.gone }
  | .dropLocal => { a with localGone := true }

/-- What is due at `t` while `es` happens, in order. -/
def due (t : Target α) : Audience α → List (Happening α) → List Notification
  | _, [] => []
  | a, .request (.notify n) :: es =>
    (if a.ended then [] else replicate (a.owed t) n) ++ due t (a.step (.request (.notify n))) es
  | a, e :: es => due t (a.step e) es

end Audience

/-- The task `h` knows all subscriptions of `a` whose receiver is there. -/
structure Handler.For (h : Handler α) (a : Audience α) : Prop where
  idle : h.removeIndexes = []
  status : h.status = if a.ended then .exited else .running
  gone : h.gone = a.gone
  localGone : h.localGone = a.localGone
  subs : ∀ tx, tx ∉ a.gone → h.listeners.count tx = a.subs.count tx

/-! ## Runs -/

section Runs

variable {h : Handler α} {a : Audience α}

theorem filterMap_listeners (ls : List α) (n : Notification) (tx : α) :
    (ls.map fun l => ((.listener l : Target α), n)).filterMap
      (fun x => if x.1 = .listener tx then some x.2 else none) = replicate (ls.count tx) n := by
  induction ls with
  | nil => rfl
  | cons l ls ih =>
    rw [map_cons, filterMap_cons, ih, count_cons]
    by_cases hl : l = tx
    · simp [hl, replicate_succ]
    · simp [hl]

theorem filterMap_localTx (ls : List α) (n : Notification) :
    (ls.map fun l => ((.listener l : Target α), n)).filterMap
      (fun x => if x.1 = .localTx then some x.2 else none) = [] := by
  simp

theorem count_live (hf : h.For a) (tx : α) :
    (h.listeners.filter fun l => !h.isGone l).count tx = a.owed (.listener tx) := by
  rw [Audience.owed]
  by_cases hg : tx ∈ a.gone
  · rw [if_pos hg, count_eq_zero]
    intro hmem
    have := (mem_filter.mp hmem).2
    simp [Handler.isGone, hf.gone, hg] at this
  · rw [if_neg hg, count_filter (by simp [Handler.isGone, hf.gone, hg]), hf.subs tx hg]

theorem received_notify (hf : h.For a) (hend : a.ended = false) (n : Notification) (t : Target α) :
    (h.handle (.notify n)).received t = h.received t ++ replicate (a.owed t) n := by
  have hrun : h.status = .running := by rw [hf.status, hend]; rfl
  obtain ⟨ls, -, hh⟩ := Handler.handle_notify (n := n) hf.idle hrun
  have hsent : (h.handle (.notify n)).sent = h.sent ++
      ((h.listeners.filter fun tx => !h.isGone tx).map fun tx => (.listener tx, n)) ++
        if a.localGone then [] else [(.localTx, n)] := by
    rw [hh, Handler.sendLocal, ← hf.localGone]
    cases h.localGone <;> simp
  rw [Handler.received, hsent, filterMap_append, filterMap_append, ← Handler.received,
    append_assoc]
  congr 1
  cases t with
  | listener tx =>
    rw [filterMap_listeners, count_live hf]
    cases a.localGone <;> simp
  | localTx =>
    rw [filterMap_localTx, Audience.owed]
    cases a.localGone <;> simp

theorem step_for (hf : h.For a) (e : Happening α) : (h.step e).For (a.step e) := by
  cases e with
  | drop tx =>
    refine ⟨hf.idle, hf.status, congrArg (tx :: ·) hf.gone, hf.localGone, fun l hl => ?_⟩
    exact hf.subs l fun hg => hl (mem_cons_of_mem _ hg)
  | dropLocal => exact { hf with localGone := rfl }
  | request r =>
    cases hend : a.ended with
    | true =>
      -- the task has ended and takes no request
      have hst : h.status = .exited := by rw [hf.status, hend]; rfl
      rw [Handler.step, if_neg (by simp [hst])]
      cases r with
      | notify n =>
        exact { hf with status := by simp [Audience.step, hend, hst] }
      | listen tx =>
        rw [Audience.step, if_pos hend]
        exact hf
    | false =>
      have hrun : h.status = .running := by rw [hf.status, hend]; rfl
      rw [Handler.step, if_pos hrun]
      cases r with
      | notify n =>
        obtain ⟨ls, hperm, hh⟩ := Handler.handle_notify (n := n) hf.idle hrun
        have hcount : ∀ tx, tx ∉ a.gone → ls.count tx = a.subs.count tx := by
          intro tx hg
          rw [hperm.count_eq, count_live hf, Audience.owed, if_neg hg]
        rw [hh, Handler.sendLocal]
        by_cases hl : h.localGone = true
        · have hal : a.localGone = true := hf.localGone ▸ hl
          rw [if_pos hl]
          exact ⟨hf.idle, by simp [Audience.step, hal], hf.gone, hf.localGone, hcount⟩
        · have hal : a.localGone = false := by simpa [hf.localGone] using hl
          rw [if_neg hl]
          exact ⟨hf.idle, by simp [Audience.step, hal, hend, hrun], hf.gone, hf.localGone, hcount⟩
      | listen tx =>
        rw [Audience.step, if_neg (by simp [hend])]
        refine { hf with subs := fun l hl => ?_ }
        simp only [Handler.handle, count_append, hf.subs l hl]

theorem init_for : (Handler.init : Handler α).For .init := ⟨rfl, rfl, rfl, rfl, fun _ _ => rfl⟩

theorem foldl_received (hf : h.For a) (es : List (Happening α)) (t : Target α) :
    (es.foldl Handler.step h).received t = h.received t ++ a.due t es := by
  induction es generalizing h a with
  | nil => simp [Audience.due]
  | cons e es ih =>
    rw [foldl_cons, ih (step_for hf e)]
    cases e with
    | drop | dropLocal => rfl
    | request r =>
      cases hend : a.ended with
      | true =>
        have hst : h.status ≠ .running := by rw [hf.status, hend]; decide
        cases r with
        | notify n => simp [Handler.step, hst, Audience.due, hend]
        | listen tx => simp [Handler.step, hst, Audience.due]
      | false =>
        have hrun : h.status = .running := by rw [hf.status, hend]; rfl
        cases r with
        | notify n =>
          rw [Handler.step, if_pos hrun, received_notify hf hend, Audience.due, if_neg (by simp [hend]),
            append_assoc]
        | listen tx =>
          rw [Handler.step, if_pos hrun]
          rfl

def audience (es : List (Happening α)) : Audience α := es.foldl Audience.step .init

theorem run_for (es : List (Happening α)) : (run es).For (audience es) := by
  induction es using reverseRecOn with
  | nil => exact init_for
  | append_singleton es e ih =>
    rw [run, audience, foldl_append, foldl_append]
    exact step_for ih e

/-- **Every notification reaches every live listener exactly once**, and the local channel, in
order. No removal is out of range, and the next notification removes exactly the listeners whose
receiver is gone. -/
theorem notifications_exactly_once (es : List (Happening α)) :
    (∀ t, (run es).received t = Audience.due t .init es) ∧ (run es).status ≠ .panicked ∧
      ∀ n, (run es).status = .running → ((run es).handle (.notify n)).listeners.Perm
        ((run es).listeners.filter fun tx => !(run es).isGone tx) := by
  have hf := run_for es
  refine ⟨fun t => ?_, ?_, fun n hrun => ?_⟩
  · rw [run, foldl_received init_for]
    rfl
  · rw [hf.status]
    split_ifs <;> decide
  · obtain ⟨ls, hperm, hh⟩ := Handler.handle_notify (n := n) hf.idle hrun
    rw [hh, Handler.sendLocal]
    split_ifs
    · exact hperm
    · exact hperm

-- three listeners, two of which are gone before the second notification
example : (run (α := ℕ) [.request (.listen 1), .request (.listen 2), .request (.listen 3),
    .request (.notify (1, [7])), .drop 1, .drop 2, .request (.notify (2, [8]))]).sent =
    [(.listener 1, (1, [7])), (.listener 2, (1, [7])), (.listener 3, (1, [7])), (.localTx, (1, [7])),
      (.listener 3, (2, [8])), (.localTx, (2, [8]))] := by decide

end Runs

end Hiqlite.Notify
