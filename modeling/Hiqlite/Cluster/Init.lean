import Hiqlite.Lib.Exec

/-!
# K1 — founding the cluster

A pristine node 1 asks the other configured nodes for their membership, round after round, before it
founds a cluster on its own (`init.rs`).

* **`shouldNode1SkipInit_eq`**: the decision, read off the answers alone;
* **`founds_after_majority_iff`**; `founds_next_to_unreachable`.
-/

namespace Hiqlite.Cluster

open List Exec

structure Node where
  id : ℕ
  addrApi : String
  deriving DecidableEq

inductive Answer
  | unreachable
  | membership (nodes : List ℕ)
  | refusal (err : String)
  | undecodable
  deriving DecidableEq

def notInitialized : Answer := .refusal "Raft node has not been initialized"

/-- The answers of nodes that work: none, that there is no cluster, or its members. -/
def Answer.Expected (a : Answer) : Prop :=
  a = .unreachable ∨ a = notInitialized ∨ ∃ x xs, a = .membership (x :: xs)

inductive Verdict
  | skip (b : Bool)
  | err
  | panic
  | pending
  deriving DecidableEq

structure Poll where
  skipNodes : List ℕ
  sent : List (ℕ × Answer)
  rest : List Answer
  deriving DecidableEq

def visit (quorum : ℕ) (node : Node) : Exec Poll Verdict Unit := do
  let p ← Exec.get
  if p.skipNodes.contains node.id then
    return ()
  match p.rest with
  | [] => stop .pending
  | a :: rest =>
    modify fun p => { p with sent := p.sent ++ [(node.id, a)], rest := rest }
    match a with
    | .membership nodes => if 0 < nodes.length then stop (.skip true) else stop .panic
    | .undecodable => stop .err
    | .refusal _ => modify fun p => { p with skipNodes := p.skipNodes ++ [node.id] }
    | .unreachable => pure ()
    let p ← Exec.get
    if quorum ≤ p.skipNodes.length then
      stop (.skip false)

def pollRound (quorum : ℕ) : List Node → Exec Poll Verdict Unit
  | [] => pure ()
  | node :: nodes => do
    visit quorum node
    pollRound quorum nodes

def pollLoop (quorum : ℕ) (nodes : List Node) : ℕ → Exec Poll Verdict Unit
  | 0 => stop .pending
  | rounds + 1 => do
    pollRound quorum nodes
    pollLoop quorum nodes rounds

def Poll.start (answers : List Answer) : Poll := ⟨[1], [], answers⟩

/-- `should_node_1_skip_init`. Every round takes at least one of the answers. -/
def shouldNode1SkipInit (nodes : List Node) (answers : List Answer) : Verdict × Poll :=
  if nodes.length < 2 then
    (.skip false, .start answers)
  else
    -- no need for +1 since this very node is the +1
    let quorum := nodes.length / 2
    match pollLoop quorum nodes (answers.length + 1) (.start answers) with
    | (.ok (), p) => (.pending, p)
    | (.error v, p) => (v, p)

inductive Founding
  | founded (members : List Node)
  | skipped
  | failed (v : Verdict)
  deriving DecidableEq

def getThisNode (thisNode : ℕ) (nodes : List Node) : Option Node :=
  nodes.find? fun node => node.id = thisNode

/-- What the two raft groups share. `initialized` is the state of the own raft. -/
def initPristineNode1 (initialized : Bool) (nodeId : ℕ) (nodes : List Node)
    (answers : List Answer) : Founding :=
  if nodeId = 1 then
    match getThisNode nodeId nodes with
    | none => .failed .err
    | some thisNode =>
      if initialized then
        .skipped
      else
        match (shouldNode1SkipInit nodes answers).1 with
        | .skip true => .skipped
        | .skip false => .founded [thisNode]
        | v => .failed v
  else
    .skipped

def initPristineNode1Db (initialized : Bool) (nodeId : ℕ) (nodes : List Node)
    (answers : List Answer) : Founding :=
  initPristineNode1 initialized nodeId nodes answers

/-- `init_pristine_node_1_cache`: the own raft only counts if its log is on disk. -/
def initPristineNode1Cache (walOnDisk initialized : Bool) (nodeId : ℕ) (nodes : List Node)
    (answers : List Answer) : Founding :=
  initPristineNode1 (walOnDisk && initialized) nodeId nodes answers

def Poll.uninitialized (p : Poll) : Finset ℕ :=
  ((p.sent.filter fun x => x.2 = notInitialized).map Prod.fst).toFinset

/-! ## The decision without the rounds -/

/-- The decision after `k` nodes, this one included, are known to have no cluster. -/
def settle (quorum : ℕ) : ℕ → List Answer → Verdict × ℕ
  | k, [] => (.pending, k)
  | k, .membership nodes :: _ => if 0 < nodes.length then (.skip true, k) else (.panic, k)
  | k, .undecodable :: _ => (.err, k)
  | k, .refusal _ :: answers =>
    if quorum ≤ k + 1 then (.skip false, k + 1) else settle quorum (k + 1) answers
  | k, .unreachable :: answers =>
    if quorum ≤ k then (.skip false, k) else settle quorum k answers

theorem settle_notInitialized (quorum k : ℕ) (answers : List Answer) :
    settle quorum k (notInitialized :: answers) =
      if quorum ≤ k + 1 then (.skip false, k + 1) else settle quorum (k + 1) answers := rfl

def Answer.isRefusal : Answer → Bool
  | .refusal _ => true
  | _ => false

/-- A node is asked until it refuses, and from then on it is skipped. -/
structure Poll.Ok (answers : List Answer) (p : Poll) : Prop where
  skip : p.skipNodes = 1 :: (p.sent.filter fun x => x.2.isRefusal).map Prod.fst
  nodup : p.skipNodes.Nodup
  heard : p.sent.map Prod.snd ++ p.rest = answers

variable {nodes : List Node} {answers : List Answer} {quorum : ℕ} {p : Poll}

def Poll.outcome (quorum : ℕ) (p : Poll) : Verdict × ℕ := settle quorum p.skipNodes.length p.rest

theorem Poll.Ok.ask (h : p.Ok answers) (node : Node) {a : Answer} {rest : List Answer}
    (hr : p.rest = a :: rest) (ha : a.isRefusal = false) :
    Poll.Ok answers { p with sent := p.sent ++ [(node.id, a)], rest := rest } := by
  refine ⟨?_, h.nodup, ?_⟩
  · simpa [filter_append, ha] using h.skip
  · rw [← h.heard, hr, map_append, append_assoc]
    rfl

theorem Poll.Ok.refuse (h : p.Ok answers) {node : Node} {err : String} {rest : List Answer}
    (hr : p.rest = .refusal err :: rest) (hn : node.id ∉ p.skipNodes) :
    Poll.Ok answers ⟨p.skipNodes ++ [node.id], p.sent ++ [(node.id, .refusal err)], rest⟩ := by
  refine ⟨?_, ?_, ?_⟩
  · simp [h.skip, filter_append, Answer.isRefusal]
  · exact concat_eq_append ▸ h.nodup.concat hn
  · rw [← h.heard, hr, map_append, append_assoc]
    rfl

/-- **One node of a round** is skipped, or it takes one answer and leaves the decision as it is. -/
theorem visit_spec (h : p.Ok answers) (node : Node) : wp (visit quorum node)
      (fun _ p' => p'.Ok answers ∧ p'.outcome quorum = p.outcome quorum ∧
        (p' = p ∧ node.id ∈ p.skipNodes ∨
          p'.rest.length < p.rest.length ∧ p'.skipNodes.length < quorum))
      (fun v p' => p'.Ok answers ∧ p.outcome quorum = (v, p'.skipNodes.length)) p := by
  unfold visit
  by_cases hmem : node.id ∈ p.skipNodes
  · simpa [hmem] using h
  simp only [wp_bind, wp_get, contains_iff_mem, hmem, if_false]
  cases hr : p.rest with
  | nil => exact ⟨h, by rw [Poll.outcome, hr]; rfl⟩
  | cons a rest =>
    cases a with
    | membership ns =>
      have hok := h.ask node hr rfl
      simp only [wp_bind, wp_modify, wp_ite, wp_stop, Poll.outcome, hr, settle]
      split_ifs <;> exact ⟨hok, rfl⟩
    | undecodable => exact ⟨h.ask node hr rfl, by rw [Poll.outcome, hr]; rfl⟩
    | refusal err =>
      have hok := h.refuse hr hmem
      simp only [wp_bind, wp_modify, wp_get, wp_ite, wp_stop, wp_pure,
        Poll.outcome, hr, settle, length_append, length_cons, length_nil,
        Nat.zero_add]
      split_ifs with hq
      · exact ⟨hok, rfl⟩
      · exact ⟨hok, rfl, .inr ⟨by omega, by omega⟩⟩
    | unreachable =>
      have hok := h.ask node hr rfl
      simp only [wp_bind, wp_modify, wp_get, wp_ite, wp_stop, wp_pure,
        Poll.outcome, hr, settle, length_cons]
      split_ifs with hq
      · exact ⟨hok, rfl⟩
      · exact ⟨hok, rfl, .inr ⟨by omega, by omega⟩⟩

/-- **One round** leaves the decision as it is and asks every node that is not skipped. -/
theorem pollRound_spec (h : p.Ok answers) (ns : List Node) : wp (pollRound quorum ns)
      (fun _ p' => p'.Ok answers ∧ p'.outcome quorum = p.outcome quorum ∧
        (p' = p ∧ (∀ node ∈ ns, node.id ∈ p.skipNodes) ∨
          p'.rest.length < p.rest.length ∧ p'.skipNodes.length < quorum))
      (fun v p' => p'.Ok answers ∧ p.outcome quorum = (v, p'.skipNodes.length)) p := by
  induction ns generalizing p with
  | nil => exact ⟨h, rfl, .inl ⟨rfl, by simp⟩⟩
  | cons node ns ih =>
    rw [pollRound, wp_bind]
    refine wp_mono (visit_spec h node) (fun _ p' hp => ?_) fun _ _ hp => hp
    obtain ⟨hok, hout, hcase⟩ := hp
    refine wp_mono (ih hok) (fun _ p'' hp => ?_) fun _ _ hp => hout ▸ hp
    obtain ⟨hok', hout', hcase'⟩ := hp
    refine ⟨hok', hout'.trans hout, ?_⟩
    rcases hcase with ⟨rfl, hmem⟩ | ⟨hlt, hq⟩ <;> rcases hcase' with ⟨rfl, hall⟩ | ⟨hlt', hq'⟩
    · exact .inl ⟨rfl, forall_mem_cons.mpr ⟨hmem, hall⟩⟩
    · exact .inr ⟨hlt', hq'⟩
    · exact .inr ⟨hlt, hq⟩
    · exact .inr ⟨hlt'.trans hlt, hq'⟩

theorem exists_not_skipped (hnd : (nodes.map Node.id).Nodup) {skip : List ℕ}
    (hlt : skip.length < nodes.length) : ¬ ∀ node ∈ nodes, node.id ∈ skip := by
  intro hall
  have hsub : nodes.map Node.id ⊆ skip := by simpa [subset_def] using hall
  have := (hnd.subperm hsub).length_le
  rw [length_map] at this
  omega

theorem pollLoop_spec (hnd : (nodes.map Node.id).Nodup) (hq : quorum ≤ nodes.length)
    (h : p.Ok answers) (hlt : p.skipNodes.length < nodes.length) {rounds : ℕ}
    (hr : p.rest.length < rounds) : wp (pollLoop quorum nodes rounds) (fun _ _ => False)
      (fun v p' => p'.Ok answers ∧ p.outcome quorum = (v, p'.skipNodes.length)) p := by
  induction rounds generalizing p with
  | zero => omega
  | succ rounds ih =>
    rw [pollLoop, wp_bind]
    refine wp_mono (pollRound_spec h nodes) (fun _ p' hp => ?_) fun _ _ hp => hp
    obtain ⟨hok, hout, ⟨rfl, hall⟩ | ⟨hless, hskip⟩⟩ := hp
    · exact absurd hall (exists_not_skipped hnd hlt)
    · exact hout ▸ ih hok (by omega) (by omega)

variable (answers) in
theorem shouldNode1SkipInit_eq (hn : 2 ≤ nodes.length) (hnd : (nodes.map Node.id).Nodup) :
    ∃ p, p.Ok answers ∧ shouldNode1SkipInit nodes answers =
        ((settle (nodes.length / 2) 1 answers).1, p) ∧
      (settle (nodes.length / 2) 1 answers).2 = p.skipNodes.length := by
  have hstart : (Poll.start answers).Ok answers := ⟨rfl, by simp [Poll.start], rfl⟩
  have hspec := pollLoop_spec hnd (Nat.div_le_self nodes.length 2) hstart
    (show 1 < nodes.length by omega) (Nat.lt_succ_self answers.length)
  rw [shouldNode1SkipInit, if_neg (by omega)]
  unfold wp at hspec
  simp only
  rcases hrun : pollLoop (nodes.length / 2) nodes (answers.length + 1) (.start answers) with ⟨r, p⟩
  rw [hrun] at hspec
  cases r with
  | ok _ => exact hspec.elim
  | error v =>
    obtain ⟨hok, hout⟩ := hspec
    have : settle (nodes.length / 2) 1 answers = (v, p.skipNodes.length) := hout
    exact ⟨p, hok, by rw [this], by rw [this]⟩

theorem Poll.Ok.card_uninitialized (h : p.Ok answers) (ha : ∀ a ∈ answers, a.Expected) :
    p.uninitialized.card + 1 = p.skipNodes.length := by
  have hfilter : (p.sent.filter fun x => x.2 = notInitialized) =
      p.sent.filter fun x => x.2.isRefusal := by
    refine filter_congr fun x hx => ?_
    have hmem : x.2 ∈ answers := by
      rw [← h.heard]
      exact mem_append_left _ (mem_map_of_mem hx)
    rcases ha x.2 hmem with hx | hx | ⟨y, ys, hx⟩ <;>
      simp [hx, Answer.isRefusal, notInitialized]
  have hnd := h.nodup
  rw [h.skip, nodup_cons] at hnd
  rw [Poll.uninitialized, hfilter, toFinset_card_of_nodup hnd.2, h.skip, length_cons]

/-! ## When the nodes without a cluster are a majority -/

def Founded (as : List Answer) : Prop := ∃ nodes, Answer.membership nodes ∈ as

/-- What has to be true of the answers of `n - 1` other nodes: with two or three nodes the first
request is answered, with more a node with a cluster answers before too many others. -/
def Attested (n : ℕ) (answers : List Answer) : Prop :=
  if n < 4 then answers.head? ≠ some .unreachable
  else ∀ i, (answers.take i).count notInitialized + 1 = n / 2 → Founded (answers.take i)

theorem settle_false_iff {k : ℕ} (hk : k < quorum) (ha : ∀ a ∈ answers, a.Expected) :
    ((settle quorum k answers).1 = .skip false ↔
      ∃ i, (answers.take i).count notInitialized + k = quorum ∧ ¬ Founded (answers.take i)) ∧
    ((settle quorum k answers).1 = .skip false → (settle quorum k answers).2 = quorum) := by
  induction answers generalizing k with
  | nil => simp [settle]; omega
  | cons a answers ih =>
    obtain ⟨hhead, htail⟩ := forall_mem_cons.mp ha
    -- the first answer is counted in every beginning that is not empty
    have hsucc : ∀ {P : ℕ → Prop}, ¬ P 0 → ((∃ i, P i) ↔ ∃ i, P (i + 1)) := by
      intro P h0
      refine ⟨fun ⟨i, hi⟩ => ?_, fun ⟨i, hi⟩ => ⟨_, hi⟩⟩
      cases i with
      | zero => exact absurd hi h0
      | succ i => exact ⟨i, hi⟩
    rw [hsucc (by simp; omega)]
    rcases hhead with rfl | rfl | ⟨x, xs, rfl⟩
    · rw [settle, if_neg (by omega)]
      simpa [Founded, notInitialized] using ih hk htail
    · by_cases hq : quorum ≤ k + 1
      · rw [settle_notInitialized, if_pos hq]
        refine ⟨iff_of_true rfl ⟨0, ?_, ?_⟩, fun _ => ?_⟩
        · simp; omega
        · simp [Founded, notInitialized]
        · simp only
          omega
      · rw [settle_notInitialized, if_neg hq]
        have := ih (show k + 1 < quorum by omega) htail
        simpa [Founded, notInitialized, Nat.add_assoc, Nat.add_comm 1 k] using this
    · simp [settle, Founded]

/-- **Node 1 founds a cluster only next to a majority without one**, if the answers are such. -/
theorem founds_after_majority_iff (hn : 2 ≤ nodes.length) (hnd : (nodes.map Node.id).Nodup)
    (ha : ∀ a ∈ answers, a.Expected) : ((shouldNode1SkipInit nodes answers).1 = .skip false →
        nodes.length / 2 ≤ (shouldNode1SkipInit nodes answers).2.uninitialized.card) ↔
      Attested nodes.length answers := by
  obtain ⟨p, hok, hrun, hlen⟩ := shouldNode1SkipInit_eq answers hn hnd
  have hcard := hok.card_uninitialized ha
  rw [hrun, Attested]
  simp only
  split_ifs with hsmall
  · have hq : nodes.length / 2 = 1 := by omega
    rw [hq] at hlen ⊢
    cases answers with
    | nil => simp [settle]
    | cons a answers =>
      rcases ha a (by simp) with rfl | rfl | ⟨x, xs, rfl⟩
      · -- the request is lost, and this node alone is the quorum
        have hlen : 1 = p.skipNodes.length := hlen
        refine iff_of_false (fun h => ?_) (by simp)
        have := h rfl
        omega
      · have hlen : 2 = p.skipNodes.length := hlen
        exact iff_of_true (fun _ => by omega) (by simp [notInitialized])
      · simp [settle]
  · have hq : 1 < nodes.length / 2 := by omega
    obtain ⟨hiff, hreach⟩ := settle_false_iff hq ha
    constructor
    · intro h i hi
      by_contra hno
      have hfalse := hiff.mpr ⟨i, hi, hno⟩
      have h1 := h hfalse
      have h2 := hreach hfalse
      omega
    · intro h hfalse
      obtain ⟨i, hi, hno⟩ := hiff.mp hfalse
      exact absurd (h i hi) hno

def nodes3 : List Node := [⟨1, "n1"⟩, ⟨2, "n2"⟩, ⟨3, "n3"⟩]

/-- Three nodes, and the one that answers has no cluster. -/
theorem founds_after_majority_three :
    nodes3.length / 2 ≤ (shouldNode1SkipInit nodes3 [notInitialized]).2.uninitialized.card :=
  (founds_after_majority_iff (by decide) (by decide) fun _ ha =>
    .inr (.inl (mem_singleton.mp ha))).mpr
      (by simp [Attested, nodes3, notInitialized]) (by decide)

/-- **One lost request**: node 1 of three founds a cluster although nobody answered. -/
theorem founds_next_to_unreachable :
    initPristineNode1Db false 1 nodes3 [.unreachable] = .founded [⟨1, "n1"⟩] ∧
      (shouldNode1SkipInit nodes3 [.unreachable]).1 = .skip false ∧
      (shouldNode1SkipInit nodes3 [.unreachable]).2.uninitialized.card < nodes3.length / 2 := by
  decide

end Hiqlite.Cluster
