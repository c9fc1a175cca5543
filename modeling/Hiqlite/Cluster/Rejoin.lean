import Hiqlite.Cluster.Init

/-!
# K2 — a node that comes back without its data

A node without a Raft state asks the other nodes whether it is still a member of their cluster, in
two rounds, and leaves that cluster first if it is (`init.rs`).

* **`askRound_spec`**: the search, read off the answers;
* **`fresh_on_quorum_iff`**; `fresh_on_one_node`: one node that answers twice can be enough.
-/

namespace Hiqlite.Cluster

open List Exec

/-! ## The search -/

inductive Reply
  | unreachable
  | refused
  | undecodable
  | metrics (nodes : List ℕ)
  deriving DecidableEq

/-- How the search ends before both rounds are over. -/
inductive Exit
  /-- A quorum is not initialized: this must be a fresh cluster. -/
  | fresh
  /-- Metrics were found, with or without this node. -/
  | found (isMember : Bool)
  deriving DecidableEq

structure Search where
  notInitializedRemotes : ℕ
  asked : List (ℕ × Reply)
  deriving DecidableEq

section

variable (quorum thisNode : ℕ) (reply : ℕ → Reply)

/-- One node of a round. `reply k` is the answer to the request number `k`. -/
def ask (node : Node) : Exec Search Exit Unit := do
  if node.id = thisNode then
    return ()
  let s ← Exec.get
  if quorum ≤ s.notInitializedRemotes then
    stop .fresh
  else
    modify fun s => { s with asked := s.asked ++ [(node.id, reply s.asked.length)] }
    match reply s.asked.length with
    | .metrics nodes => stop (.found (nodes.contains thisNode))
    | .refused =>
      modify fun s => { s with notInitializedRemotes := s.notInitializedRemotes + 1 }
    | .unreachable => pure ()
    | .undecodable => pure ()

def askRound : List Node → Exec Search Exit Unit
  | [] => pure ()
  | node :: nodes => do
    ask quorum thisNode reply node
    askRound nodes

end

/-- `is_remote_cluster_member`, with what it knows at the end. -/
def isRemoteClusterMember (nodes : List Node) (thisNode : ℕ) (reply : ℕ → Reply) :
    Except Exit Unit × Search :=
  -- "This" node is the +1 for the quorum
  let quorum := nodes.length / 2
  (do askRound quorum thisNode reply nodes; askRound quorum thisNode reply nodes : Exec _ _ Unit)
    ⟨0, []⟩

/-- What `is_remote_cluster_member` returns. -/
def returned : Except Exit Unit → Bool
  | .error (.found isMember) => isMember
  | _ => false

/-! ## The answers -/

def refusedBy (xs : List (ℕ × Reply)) : List ℕ :=
  xs.filterMap fun x => if x.2 = .refused then some x.1 else none

def Reply.isMetrics : Reply → Bool
  | .metrics _ => true
  | _ => false

/-- The requests to the nodes `ids` from number `k` on, with their answers. -/
def exchanges (reply : ℕ → Reply) (k : ℕ) (ids : List ℕ) : List (ℕ × Reply) :=
  (ids.zipIdx k).map fun x => (x.1, reply x.2)

def schedule (nodes : List Node) (thisNode : ℕ) : List ℕ :=
  let remotes := (nodes.filter fun node => node.id ≠ thisNode).map Node.id
  remotes ++ remotes

/-- The nodes that answer that they are not initialized, before any metrics. -/
def refusers (nodes : List Node) (thisNode : ℕ) (reply : ℕ → Reply) : List ℕ :=
  refusedBy ((exchanges reply 0 (schedule nodes thisNode).dropLast).takeWhile fun x =>
    !x.2.isMetrics)

variable {quorum thisNode : ℕ} {reply : ℕ → Reply}

theorem exchanges_cons (k i : ℕ) (ids : List ℕ) :
    exchanges reply k (i :: ids) = (i, reply k) :: exchanges reply (k + 1) ids := rfl

theorem refusedBy_append (xs ys : List (ℕ × Reply)) :
    refusedBy (xs ++ ys) = refusedBy xs ++ refusedBy ys := filterMap_append

/-! ## The search, read off the answers -/

theorem askRound_filter (nodes : List Node) : askRound quorum thisNode reply nodes =
    askRound quorum thisNode reply (nodes.filter fun node => node.id ≠ thisNode) := by
  induction nodes with
  | nil => rfl
  | cons node nodes ih =>
    by_cases h : node.id = thisNode
    · rw [filter_cons_of_neg (by simpa using h), ← ih, askRound, ask, if_pos h]
      rfl
    · rw [filter_cons_of_pos (by simpa using h), askRound, askRound, ih]

theorem askRound_append (xs ys : List Node) : askRound quorum thisNode reply (xs ++ ys) =
    (do askRound quorum thisNode reply xs; askRound quorum thisNode reply ys) := by
  induction xs with
  | nil => rfl
  | cons x xs ih => rw [cons_append, askRound, askRound, bind_assoc', ih]

variable {s : Search} {node : Node}

theorem ask_fresh (hn : node.id ≠ thisNode) (hq : quorum ≤ s.notInitializedRemotes) :
    ask quorum thisNode reply node s = (.error .fresh, s) := by
  simp [ask, hn, hq]

theorem ask_metrics (hn : node.id ≠ thisNode) (hq : s.notInitializedRemotes < quorum) {ms : List ℕ}
    (hr : reply s.asked.length = .metrics ms) :
    ask quorum thisNode reply node s = (.error (.found (ms.contains thisNode)),
      { s with asked := s.asked ++ [(node.id, .metrics ms)] }) := by
  simp [ask, hn, Nat.not_le.mpr hq, hr]

theorem ask_other (hn : node.id ≠ thisNode) (hq : s.notInitializedRemotes < quorum)
    (hr : (reply s.asked.length).isMetrics = false) :
    ask quorum thisNode reply node s = (.ok (), ⟨s.notInitializedRemotes +
      (refusedBy [(node.id, reply s.asked.length)]).length,
      s.asked ++ [(node.id, reply s.asked.length)]⟩) := by
  cases h : reply s.asked.length with
  | metrics ms => simp [h, Reply.isMetrics] at hr
  | refused | unreachable | undecodable => simp [ask, hn, Nat.not_le.mpr hq, h, refusedBy]

/-- The search has counted answers without metrics, and no quorum yet. -/
structure Search.Going (quorum : ℕ) (s : Search) : Prop where
  counted : s.notInitializedRemotes = (refusedBy s.asked).length
  le : s.notInitializedRemotes ≤ quorum
  plain : ∀ x ∈ s.asked, x.2.isMetrics = false

/-- The answers so far, and those to come before any metrics. -/
def Search.ahead (reply : ℕ → Reply) (l : List Node) (s : Search) : List (ℕ × Reply) :=
  s.asked ++ (exchanges reply s.asked.length (l.map Node.id).dropLast).takeWhile fun x =>
    !x.2.isMetrics

/-- **A round over other nodes** concludes a fresh cluster iff a quorum of answers before the last
one says so. -/
theorem askRound_spec (reply : ℕ → Reply) (l : List Node) (hl : ∀ x ∈ l, x.id ≠ thisNode)
    (hs : s.Going quorum) :
    ((askRound quorum thisNode reply l s).1 = .error .fresh ↔
      l ≠ [] ∧ quorum ≤ (refusedBy (s.ahead reply l)).length) ∧
    ((askRound quorum thisNode reply l s).1 = .error .fresh →
      refusedBy (askRound quorum thisNode reply l s).2.asked =
        (refusedBy (s.ahead reply l)).take quorum) ∧
    ∀ x ∈ (askRound quorum thisNode reply l s).2.asked, ∀ ms, x.2 = .metrics ms →
      (askRound quorum thisNode reply l s).1 = .error (.found (ms.contains thisNode)) := by
  have hplain : ∀ {t : Search} {e : Except Exit Unit}, t.Going quorum →
      ∀ x ∈ t.asked, ∀ ms, x.2 = .metrics ms → e = .error (.found (ms.contains thisNode)) := by
    intro t e ht x hx ms hm
    have := ht.plain x hx
    simp [hm, Reply.isMetrics] at this
  induction l generalizing s with
  | nil => exact ⟨by simp [askRound], by simp [askRound], hplain hs⟩
  | cons node l ih =>
    have hn := hl node (by simp)
    by_cases hq : quorum ≤ s.notInitializedRemotes
    · -- the quorum is complete before this request
      have hask : askRound quorum thisNode reply (node :: l) s = (.error .fresh, s) := by
        rw [askRound, bind_error (ask_fresh hn hq)]
      have hlen : (refusedBy s.asked).length = quorum := by
        have := hs.counted
        have := hs.le
        omega
      rw [hask]
      refine ⟨⟨fun _ => ⟨by simp, ?_⟩, fun _ => rfl⟩, fun _ => ?_, hplain hs⟩
      · rw [Search.ahead, refusedBy_append, length_append]
        omega
      · rw [Search.ahead, refusedBy_append, take_append_of_le_length hlen.ge, ← hlen,
          take_length]
    · have hq' : s.notInitializedRemotes < quorum := by omega
      have hshort : (refusedBy s.asked).length < quorum := hs.counted ▸ hq'
      cases hm : (reply s.asked.length).isMetrics with
      | true =>
        -- metrics end the search
        obtain ⟨ms, hr⟩ : ∃ ms, reply s.asked.length = .metrics ms := by
          cases h : reply s.asked.length with
          | metrics ms => exact ⟨ms, rfl⟩
          | _ => simp [h, Reply.isMetrics] at hm
        have hask : askRound quorum thisNode reply (node :: l) s =
            (.error (.found (ms.contains thisNode)),
              { s with asked := s.asked ++ [(node.id, .metrics ms)] }) := by
          rw [askRound, bind_error (ask_metrics hn hq' hr)]
        have hnil : s.ahead reply (node :: l) = s.asked := by
          cases l with
          | nil => simp [Search.ahead, exchanges]
          | cons y l => simp [Search.ahead, exchanges_cons, hm]
        rw [hask, hnil]
        refine ⟨by simp; omega, by simp, fun x hx ms' hms => ?_⟩
        rcases mem_append.mp hx with hx | hx
        · exact hplain hs x hx ms' hms
        · rw [mem_singleton.mp hx] at hms
          cases hms
          rfl
      | false =>
        have hask : ask quorum thisNode reply node s = _ := ask_other hn hq' hm
        set t : Search := ⟨s.notInitializedRemotes +
          (refusedBy [(node.id, reply s.asked.length)]).length,
          s.asked ++ [(node.id, reply s.asked.length)]⟩ with ht
        have hone : (refusedBy [(node.id, reply s.asked.length)]).length ≤ 1 := by
          rw [refusedBy]
          exact (length_filterMap_le _ _).trans (by simp)
        have hgoing : t.Going quorum := by
          refine ⟨?_, ?_, fun x hx => ?_⟩
          · rw [ht, refusedBy_append, length_append, hs.counted]
          · rw [ht]
            simp only
            omega
          · rcases mem_append.mp hx with hx | hx
            · exact hs.plain x hx
            · rw [mem_singleton.mp hx]
              exact hm
        have hstep : askRound quorum thisNode reply (node :: l) s =
            askRound quorum thisNode reply l t := by
          rw [askRound, bind_ok hask]
        have hih := ih (fun x hx => hl x (by simp [hx])) hgoing
        rw [hstep]
        cases l with
        | nil =>
          have hnil : s.ahead reply [node] = s.asked := by simp [Search.ahead, exchanges]
          refine ⟨?_, by simp [askRound], hih.2.2⟩
          rw [hnil]
          simp [askRound]
          omega
        | cons y l =>
          have hahead : s.ahead reply (node :: y :: l) = t.ahead reply (y :: l) := by
            simp [Search.ahead, exchanges_cons, hm, ht]
          rw [hahead]
          exact ⟨hih.1.trans (by simp), hih.2⟩

/-! ## Fresh clusters -/

theorem isRemoteClusterMember_eq (nodes : List Node) (thisNode : ℕ) (reply : ℕ → Reply) :
    isRemoteClusterMember nodes thisNode reply =
      askRound (nodes.length / 2) thisNode reply
        ((nodes.filter fun node => node.id ≠ thisNode) ++
          nodes.filter fun node => node.id ≠ thisNode) ⟨0, []⟩ := by
  rw [askRound_append, ← askRound_filter]
  rfl

theorem length_le_card_toFinset {l : List ℕ} : l.length ≤ l.toFinset.card ↔ l.Nodup := by
  constructor
  · intro h
    by_contra hn
    have hlt : l.dedup.length < l.length := by
      refine lt_of_le_of_ne l.dedup_sublist.length_le fun he => hn ?_
      rw [← l.dedup_sublist.eq_of_length he]
      exact l.nodup_dedup
    rw [card_toFinset] at h
    omega
  · intro h
    rw [toFinset_card_of_nodup h]

/-- **A fresh cluster is concluded from a quorum of different nodes iff the first `n / 2` answers
that a node is not initialized come from different nodes.** Metrics that list this node are always
believed. -/
theorem fresh_on_quorum_iff (nodes : List Node) (thisNode : ℕ) (reply : ℕ → Reply) :
    (((isRemoteClusterMember nodes thisNode reply).1 = .error .fresh → nodes.length / 2 ≤
        (refusedBy (isRemoteClusterMember nodes thisNode reply).2.asked).toFinset.card) ∧
      ((isRemoteClusterMember nodes thisNode reply).1 ≠ .error .fresh →
        (∃ i ms, (i, Reply.metrics ms) ∈ (isRemoteClusterMember nodes thisNode reply).2.asked ∧
          thisNode ∈ ms) → returned (isRemoteClusterMember nodes thisNode reply).1 = true)) ↔
      (nodes.length / 2 ≤ (refusers nodes thisNode reply).length →
        ((refusers nodes thisNode reply).take (nodes.length / 2)).Nodup) := by
  set remotes := nodes.filter fun node => node.id ≠ thisNode with hrem
  have hl : ∀ x ∈ remotes ++ remotes, x.id ≠ thisNode := by
    intro x hx
    rw [mem_append, or_self] at hx
    simpa using (mem_filter.mp hx).2
  have hgoing : (⟨0, []⟩ : Search).Going (nodes.length / 2) := ⟨rfl, Nat.zero_le _, by simp⟩
  have hahead : refusedBy (Search.ahead reply (remotes ++ remotes) ⟨0, []⟩) =
      refusers nodes thisNode reply := by
    rw [Search.ahead, refusers, schedule, map_append]
    rfl
  obtain ⟨h1, h2, h3⟩ := askRound_spec reply (remotes ++ remotes) hl hgoing
  rw [isRemoteClusterMember_eq, ← hrem]
  rw [hahead] at h1 h2
  constructor
  · rintro ⟨hfresh, -⟩ hq
    by_cases hne : remotes ++ remotes = []
    · -- there is nobody to ask
      have : refusers nodes thisNode reply = [] := by
        rw [← hahead, hne]
        rfl
      rw [this]
      simp
    · have hf := h1.mpr ⟨hne, hq⟩
      have hcard := hfresh hf
      rw [h2 hf] at hcard
      refine length_le_card_toFinset.mp ?_
      rw [length_take, min_eq_left hq]
      exact hcard
  · intro hnodup
    refine ⟨fun hf => ?_, fun _ ⟨i, ms, hmem, hthis⟩ => ?_⟩
    · have hq := (h1.mp hf).2
      have hcard := length_le_card_toFinset.mpr (hnodup hq)
      rw [length_take, min_eq_left hq] at hcard
      rwa [h2 hf]
    · rw [h3 _ hmem ms rfl, returned]
      simpa using hthis

/-- **One node that answers twice** makes a quorum of two. -/
theorem fresh_on_one_node :
    let nodes : List Node := [⟨1, "a"⟩, ⟨2, "b"⟩, ⟨3, "c"⟩, ⟨4, "d"⟩, ⟨5, "e"⟩]
    let reply : ℕ → Reply := fun k =>
      if k = 0 ∨ k = 4 then .refused else if k = 5 then .metrics [1, 2, 3, 4, 5] else .unreachable
    let r := isRemoteClusterMember nodes 1 reply
    r.1 = .error .fresh ∧ refusedBy r.2.asked = [2, 2] ∧
      (refusedBy r.2.asked).toFinset.card < nodes.length / 2 ∧ returned r.1 = false := by
  decide

end Hiqlite.Cluster
