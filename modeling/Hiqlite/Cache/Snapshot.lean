import Hiqlite.Raft.Types
import Hiqlite.Cache.Same
import Hiqlite.Dlock.Same

/-!
# E4 — snapshots of the caches

The state machine of the cache group has a handler for each cache and one for the locks. A snapshot is
built and installed by one message to each of them; a cache that it does not mention gets no message.

* **`snapshot_carries_state`**; `extra_cache_survives`.
-/

namespace Hiqlite.Cache

open List Option Exec KvHandler

/-! ## The state machine -/

structure Node where
  cache : ℕ → World
  dlock : Dlock.World

/-- The handlers of the caches and of the locks, and the data of the state machine. -/
structure StateMachineMemory (K V M : Type) where
  caches : List (KvHandler K V)
  dlock : Dlock.Handler K
  lastAppliedLogId : Option LogId
  lastMembership : M

structure SnapshotMeta (M : Type) where
  lastLogId : Option LogId
  lastMembership : M

structure SnapshotDataContent (K V M : Type) where
  snapshotMeta : SnapshotMeta M
  caches : List (CacheSnapshot K V)
  locks : Table K Dlock.LockQueue

inductive Crash
  | cache (p : Panic)
  | dlock (p : Dlock.Panic)
  /-- `tx_caches.get(idx).unwrap()` -/
  | noCache
  | noAnswer
  deriving DecidableEq

variable {K V M : Type} [DecidableEq K]

/-- The iterations of a handler's loop until a request is answered. -/
def answerOf (w : World) (req : CacheRequestHandler K V) : ℕ →
    Exec (KvHandler K V) Panic (Option (Reply K V))
  | 0 => pure none
  | n + 1 => do
    match ← iteration w (some req) with
    | .served reply => pure reply
    | _ => answerOf w req n

def roundTrip (w : World) (req : CacheRequestHandler K V) :
    Exec (KvHandler K V) Panic (Option (Reply K V)) := do
  let c ← Exec.get
  answerOf w req (c.expiries.keys.length + 1)

/-- `SnapshotBuild`, for one cache after the other; the first one is the `i`-th. -/
def buildCaches (w : ℕ → World) : ℕ → List (KvHandler K V) →
    Except Crash (List (CacheSnapshot K V)) × List (KvHandler K V)
  | _, [] => (.ok [], [])
  | i, c :: cs =>
    match roundTrip (w i) .snapshotBuild c with
    | (.ok (some (.snapshot s)), c') =>
      let out := buildCaches w (i + 1) cs
      (out.1.map (s :: ·), c' :: out.2)
    | (.ok _, c') => (.error .noAnswer, c' :: cs)
    | (.error p, c') => (.error (.cache p), c' :: cs)

/-- `SnapshotInstall`, one after the other; the first one is for the `i`-th cache. -/
def installCaches (w : ℕ → World) : ℕ → List (CacheSnapshot K V) → List (KvHandler K V) →
    Except Crash Unit × List (KvHandler K V)
  | _, [], cs => (.ok (), cs)
  | _, _ :: _, [] => (.error .noCache, [])
  | i, s :: ss, c :: cs =>
    match roundTrip (w i) (.snapshotInstall s) c with
    | (.ok (some .installed), c') =>
      let out := installCaches w (i + 1) ss cs
      (out.1, c' :: out.2)
    | (.ok _, c') => (.error .noAnswer, c' :: cs)
    | (.error p, c') => (.error (.cache p), c' :: cs)

def onCaches {α : Type} (f : List (KvHandler K V) → Except Crash α × List (KvHandler K V)) :
    Exec (StateMachineMemory K V M) Crash α :=
  zoom StateMachineMemory.caches (fun cs m => { m with caches := cs }) f

def askDlock (n : Node) (req : Dlock.LockRequest K) : Exec (StateMachineMemory K V M) Crash Unit :=
  fun m =>
    let out := Dlock.handleRequest n.dlock req m.dlock
    (out.1.mapError .dlock, { m with dlock := out.2 })

/-- **`build_snapshot_data`**; the lock handler answers on `ack`. -/
def buildSnapshotData (n : Node) (ack : Dlock.Ack) :
    Exec (StateMachineMemory K V M) Crash (SnapshotDataContent K V M) := do
  let data ← Exec.get
  let caches ← onCaches (buildCaches n.cache 0)
  askDlock n (.snapshotBuild ack)
  let m ← Exec.get
  match m.dlock.log.getLast? with
  | some (.snapshotBuilt _ locks) =>
    pure ⟨⟨data.lastAppliedLogId, data.lastMembership⟩, caches, locks⟩
  | _ => stop .noAnswer

/-- **`update_state_machine`**; the lock handler answers on `ack`. -/
def updateStateMachine (n : Node) (ack : Dlock.Ack) (content : SnapshotDataContent K V M) :
    Exec (StateMachineMemory K V M) Crash Unit := do
  onCaches (installCaches n.cache 0 content.caches)
  askDlock n (.snapshotInstall content.locks ack)
  modify fun m => { m with
    lastAppliedLogId := content.snapshotMeta.lastLogId
    lastMembership := content.snapshotMeta.lastMembership }

/-! ## The messages -/

section Messages

variable {w : World} {c c' : KvHandler K V}

/-- **A request is answered**, after what is due is gone, unless a debug build cannot subtract. -/
theorem answerOf_spec (h : c.Synced) (req : CacheRequestHandler K V) {n : ℕ}
    (hn : c.expiries.keys.length < n) :
    (∃ c0 reply c', c0.Synced ∧ process w req c0 = (.ok reply, c') ∧
      answerOf w req n c = (.ok reply, c')) ∨
    w.debugAssertions = true ∧ (answerOf w req n c).1 = .error .overflow := by
  induction n generalizing c with
  | zero => exact absurd hn (Nat.not_lt_zero _)
  | succ n ih =>
    rcases iteration_ends w h (some req) with ⟨exp, left, hfirst, -, -, heq⟩ | ⟨hreq, -⟩ |
      ⟨q, reply, k, c', hreq, hprocess, heq⟩ | ⟨exp, k, c', -, hdiff, heq⟩
    · -- one bucket less
      have hmem : exp ∈ c.expiries.keys := min?_mem hfirst
      have hless : (c.pop exp).read.expiries.keys.length < n := by
        have hlen : (c.pop exp).read.expiries.keys.length = c.expiries.keys.length - 1 := by
          change ((c.expiries.erase exp).keys).length = _
          rw [AList.keys_erase, length_erase_of_mem hmem]
        have hpos := length_pos_of_mem hmem
        omega
      rw [answerOf, bind_ok heq]
      exact ih (c := (c.pop exp).read) h.pop hless
    · cases hreq
    · cases hreq
      rw [answerOf, bind_ok heq]
      exact .inl ⟨{ c with reads := c.reads + k }, reply, c', h, hprocess, rfl⟩
    · rw [answerOf, bind_error heq]
      exact .inr ⟨(difference_error hdiff).2.1, rfl⟩

theorem roundTrip_spec (h : c.Synced) (req : CacheRequestHandler K V) :
    (∃ c0 reply c', c0.Synced ∧ process w req c0 = (.ok reply, c') ∧
      roundTrip w req c = (.ok reply, c')) ∨
    w.debugAssertions = true ∧ (roundTrip w req c).1 = .error .overflow :=
  answerOf_spec h req (Nat.lt_succ_self _)

end Messages

def Overflows {α : Type} (w : ℕ → World) (r : Except Crash α) : Prop :=
  (∃ i, (w i).debugAssertions = true) ∧ r = .error (.cache .overflow)

section Lists

variable {w : ℕ → World}

theorem buildCaches_spec (i : ℕ) (cs : List (KvHandler K V)) (hcs : ∀ c ∈ cs, c.Synced) :
    (∃ ss cs', buildCaches w i cs = (.ok ss, cs') ∧
      Forall₂ (fun c s => c.Synced ∧ s = ⟨c.values, c.counters⟩) cs' ss ∧
      cs'.length = cs.length) ∨
    Overflows w (buildCaches w i cs).1 := by
  induction cs generalizing i with
  | nil => exact .inl ⟨[], [], rfl, Forall₂.nil, rfl⟩
  | cons c cs ih =>
    have hc : c.Synced := hcs c mem_cons_self
    rcases roundTrip_spec (w := w i) hc .snapshotBuild with
      ⟨c0, reply, c', hc0, hprocess, heq⟩ | ⟨hdebug, herr⟩
    · cases hprocess
      rcases ih (i + 1) fun c hmem => hcs c (mem_cons_of_mem _ hmem) with
        ⟨ss, cs', hrest, hall, hlen⟩ | ⟨hdebug, herr⟩
      · refine .inl ⟨⟨c0.values, c0.counters⟩ :: ss, c0 :: cs', ?_, hall.cons ⟨hc0, rfl⟩, by simp [hlen]⟩
        rw [buildCaches, heq, hrest]
        rfl
      · refine .inr ⟨hdebug, ?_⟩
        rw [buildCaches, heq]
        simp only [herr]
        rfl
    · refine .inr ⟨⟨i, hdebug⟩, ?_⟩
      rw [buildCaches]
      cases hout : roundTrip (w i) .snapshotBuild c with
      | mk r c' =>
        rw [hout] at herr
        cases herr
        rfl

/-- **Installing it replaces the contents of the caches it mentions**, and of no other one. -/
theorem installCaches_spec (i : ℕ) (ss : List (CacheSnapshot K V)) (cs : List (KvHandler K V))
    (hlen : ss.length ≤ cs.length) (hcs : ∀ c ∈ cs, c.Synced) :
    (∃ front, installCaches w i ss cs = (.ok (), front ++ cs.drop ss.length) ∧
      Forall₂ (fun s c => c.Synced ∧ c.values = s.values ∧ c.counters = s.counters) ss front) ∨
    Overflows w (installCaches w i ss cs).1 := by
  induction ss generalizing i cs with
  | nil => exact .inl ⟨[], rfl, Forall₂.nil⟩
  | cons s ss ih =>
    cases cs with
    | nil => cases hlen
    | cons c cs =>
      have hc : c.Synced := hcs c mem_cons_self
      rcases roundTrip_spec (w := w i) hc (.snapshotInstall s) with
        ⟨c0, reply, c', hc0, hprocess, heq⟩ | ⟨hdebug, herr⟩
      · cases hprocess
        rcases ih (i + 1) cs (Nat.le_of_succ_le_succ hlen)
          fun c hmem => hcs c (mem_cons_of_mem _ hmem) with
          ⟨front, hrest, hall⟩ | ⟨hdebug, herr⟩
        · obtain ⟨hvalues, hcounters, -⟩ := install_fields s c0
          refine .inl ⟨c0.install s :: front, ?_,
            hall.cons ⟨c0.install_synced s, hvalues, hcounters⟩⟩
          rw [installCaches, heq, hrest]
          rfl
        · refine .inr ⟨hdebug, ?_⟩
          rw [installCaches, heq]
          exact herr
      · refine .inr ⟨⟨i, hdebug⟩, ?_⟩
        rw [installCaches]
        cases hout : roundTrip (w i) (.snapshotInstall s) c with
        | mk r c' =>
          rw [hout] at herr
          cases herr
          rfl

end Lists

/-! ## The state machine's part -/

section StateMachine

variable {n : Node} {m m' : StateMachineMemory K V M} {ack : Dlock.Ack}

omit [DecidableEq K] in
theorem onCaches_apply {α : Type} {f : List (KvHandler K V) → Except Crash α × List (KvHandler K V)}
    {r : Except Crash α} {cs : List (KvHandler K V)} (h : f m.caches = (r, cs)) :
    onCaches f m = (r, { m with caches := cs }) := by
  simp [onCaches, zoom, h]

/-- What the build has done when it is through. -/
structure Built (m : StateMachineMemory K V M) (content : SnapshotDataContent K V M)
    (m' : StateMachineMemory K V M) : Prop where
  caches : Forall₂ (fun c s => c.Synced ∧ s = ⟨c.values, c.counters⟩) m'.caches content.caches
  length : m'.caches.length = m.caches.length
  locks : content.locks = m'.dlock.locks
  lastLogId : content.snapshotMeta.lastLogId = m'.lastAppliedLogId
  lastMembership : content.snapshotMeta.lastMembership = m'.lastMembership

theorem buildSnapshotData_spec (hm : ∀ c ∈ m.caches, c.Synced) (hack : n.dlock.gone ack = false) :
    (∃ content m', buildSnapshotData n ack m = (.ok content, m') ∧ Built m content m') ∨
      Overflows n.cache (buildSnapshotData n ack m).1 := by
  rcases buildCaches_spec (w := n.cache) 0 m.caches hm with ⟨ss, cs', hbuild, hall, hlen⟩ | ⟨hdebug, herr⟩
  · have hdlock : askDlock n (.snapshotBuild ack) { m with caches := cs' } = (.ok (), { m with
        caches := cs', dlock := m.dlock.note [.snapshotBuilt ack m.dlock.locks] }) := by
      simp [askDlock, Dlock.handleRequest, hack, Except.mapError]
    refine .inl ⟨⟨⟨m.lastAppliedLogId, m.lastMembership⟩, ss, m.dlock.locks⟩, { m with
        caches := cs', dlock := m.dlock.note [.snapshotBuilt ack m.dlock.locks] }, ?_,
      ⟨hall, hlen, rfl, rfl, rfl⟩⟩
    rw [buildSnapshotData, Exec.get_bind, Exec.bind_ok (onCaches_apply hbuild), Exec.bind_ok hdlock,
      Exec.get_bind]
    simp only [Dlock.Handler.note_log, getLast?_append, getLast?_singleton, some_or]
    rfl
  · refine .inr ⟨hdebug, ?_⟩
    cases hout : buildCaches n.cache 0 m.caches with
    | mk r cs' =>
      rw [hout] at herr
      subst herr
      rw [buildSnapshotData, Exec.get_bind, Exec.bind_error (onCaches_apply hout)]

/-- What the update has done when it is through. -/
structure Updated (m : StateMachineMemory K V M) (content : SnapshotDataContent K V M)
    (m' : StateMachineMemory K V M) : Prop where
  caches : ∃ front, m'.caches = front ++ m.caches.drop content.caches.length ∧
    Forall₂ (fun s c => c.Synced ∧ c.values = s.values ∧ c.counters = s.counters)
      content.caches front
  locks : m'.dlock.locks = content.locks
  lastLogId : m'.lastAppliedLogId = content.snapshotMeta.lastLogId
  lastMembership : m'.lastMembership = content.snapshotMeta.lastMembership

theorem updateStateMachine_spec {content : SnapshotDataContent K V M}
    (hm : ∀ c ∈ m.caches, c.Synced) (hlen : content.caches.length ≤ m.caches.length)
    (hack : n.dlock.gone ack = false) :
    (∃ m', updateStateMachine n ack content m = (.ok (), m') ∧ Updated m content m') ∨
      Overflows n.cache (updateStateMachine n ack content m).1 := by
  rcases installCaches_spec (w := n.cache) 0 content.caches m.caches hlen hm with
    ⟨front, hinstall, hall⟩ | ⟨hdebug, herr⟩
  · have hdlock : ∃ h : Dlock.Handler K, h.locks = content.locks ∧
        askDlock n (.snapshotInstall content.locks ack)
            { m with caches := front ++ m.caches.drop content.caches.length } =
          (.ok (), { m with
            caches := front ++ m.caches.drop content.caches.length, dlock := h }) := by
      refine ⟨_, ?_, by
        simp only [askDlock, Dlock.handleRequest, Exec.modify_bind, hack, Bool.false_eq_true, if_false,
          Exec.pure_apply, Except.mapError]
        rfl⟩
      rfl
    obtain ⟨h, hlocks, hdlock⟩ := hdlock
    refine .inl ⟨⟨front ++ m.caches.drop content.caches.length, h, content.snapshotMeta.lastLogId,
      content.snapshotMeta.lastMembership⟩, ?_, ⟨⟨front, rfl, hall⟩, hlocks, rfl, rfl⟩⟩
    rw [updateStateMachine, bind_ok (onCaches_apply hinstall), bind_ok hdlock]
    rfl
  · refine .inr ⟨hdebug, ?_⟩
    cases hout : installCaches n.cache 0 content.caches m.caches with
    | mk r cs' =>
      rw [hout] at herr
      subst herr
      rw [updateStateMachine, bind_error (onCaches_apply hout)]

end StateMachine

/-! ## From the sender to the receiver -/

def StateMachineMemory.Reached (n : Node) (m : StateMachineMemory K V M) : Prop :=
  ∀ i c, m.caches[i]? = some c → ∃ ls, Path (Step (n.cache i)) .spawn ls c

theorem StateMachineMemory.Reached.synced {n : Node} {m : StateMachineMemory K V M} (h : m.Reached n) :
    ∀ c ∈ m.caches, c.Synced := by
  intro c hc
  obtain ⟨i, hi⟩ := mem_iff_getElem?.mp hc
  obtain ⟨ls, hpath⟩ := h i c hi
  exact Synced.run hpath

/-- The receiver behaves like the sender; its additional caches behave like empty ones. -/
structure Carries (sender receiver : StateMachineMemory K V M) : Prop where
  shared : Forall₂ Alike sender.caches (receiver.caches.take sender.caches.length)
  additional : ∀ c ∈ receiver.caches.drop sender.caches.length, c.Alike .spawn
  locks : sender.dlock.Alike receiver.dlock
  lastAppliedLogId : receiver.lastAppliedLogId = sender.lastAppliedLogId
  lastMembership : receiver.lastMembership = sender.lastMembership

theorem forall₂_alike {cs ds : List (KvHandler K V)} {ss : List (CacheSnapshot K V)}
    (hbuilt : Forall₂ (fun c s => c.Synced ∧ s = ⟨c.values, c.counters⟩) cs ss)
    (hinstalled : Forall₂ (fun s c => c.Synced ∧ c.values = s.values ∧ c.counters = s.counters)
      ss ds) : Forall₂ Alike cs ds := by
  induction hbuilt generalizing ds with
  | nil =>
    cases hinstalled
    exact .nil
  | @cons c s cs ss hc hcs ih =>
    obtain ⟨hsynced, rfl⟩ := hc
    cases hinstalled with
    | @cons _ d _ ds hd hds =>
      obtain ⟨hsynced', hvalues, hcounters⟩ := hd
      have hsame : Same { c with reads := 0 } { d with reads := 0 } :=
        ⟨hsynced, hsynced', fun k => by rw [hvalues], fun k => by rw [hcounters], rfl⟩
      exact .cons hsame.alike (ih hds)

theorem carries_iff {content : SnapshotDataContent K V M}
    {sender sender' receiver receiver' : StateMachineMemory K V M}
    (hbuilt : Built sender content sender') (hupdated : Updated receiver content receiver')
    (hsynced : ∀ c ∈ receiver.caches, c.Synced) :
    Carries sender' receiver' ↔ ∀ c ∈ receiver.caches.drop sender.caches.length, c.Empty := by
  obtain ⟨front, hcaches, hall⟩ := hupdated.caches
  have hlen : sender'.caches.length = content.caches.length := hbuilt.caches.length_eq
  have hfront : front.length = sender'.caches.length := by rw [hlen, hall.length_eq]
  have htake : receiver'.caches.take sender'.caches.length = front := by
    rw [hcaches, ← hfront, take_left]
  have hdrop : receiver'.caches.drop sender'.caches.length =
      receiver.caches.drop sender.caches.length := by
    rw [hcaches, ← hfront, drop_left, ← hbuilt.length, hlen]
  have hempty : ∀ c ∈ receiver.caches.drop sender.caches.length, c.Alike .spawn ↔ c.Empty :=
    fun c hc => alike_spawn_iff (hsynced c (mem_of_mem_drop hc))
  constructor
  · intro hcarries c hc
    exact (hempty c hc).mp (hcarries.additional c (hdrop ▸ hc))
  · intro hall'
    refine ⟨?_, fun c hc => ?_, Dlock.Handler.alike_of_locks ?_, ?_, ?_⟩
    · rw [htake]
      exact forall₂_alike hbuilt.caches hall
    · rw [hdrop] at hc
      exact (hempty c hc).mpr (hall' c hc)
    · rw [hupdated.locks, hbuilt.locks]
    · rw [hupdated.lastLogId, hbuilt.lastLogId]
    · rw [hupdated.lastMembership, hbuilt.lastMembership]

/-- **A snapshot carries the whole state iff the additional caches of the receiver are empty.** The
build and the update come to an end, unless a debug build cannot subtract an expiry from the clock. -/
theorem snapshot_carries_state (n n' : Node) (sender receiver : StateMachineMemory K V M)
    (hsender : sender.Reached n) (hreceiver : receiver.Reached n')
    (hlen : sender.caches.length ≤ receiver.caches.length) {ack ack' : Dlock.Ack}
    (hack : n.dlock.gone ack = false) (hack' : n'.dlock.gone ack' = false) :
    (∃ content sender' receiver', buildSnapshotData n ack sender = (.ok content, sender') ∧
      updateStateMachine n' ack' content receiver = (.ok (), receiver') ∧
      (Carries sender' receiver' ↔ ∀ c ∈ receiver.caches.drop sender.caches.length, c.Empty)) ∨
    Overflows n.cache (buildSnapshotData n ack sender).1 ∨
    ∃ content sender', buildSnapshotData n ack sender = (.ok content, sender') ∧
      Overflows n'.cache (updateStateMachine n' ack' content receiver).1 := by
  rcases buildSnapshotData_spec hsender.synced hack with ⟨content, sender', hbuild, hbuilt⟩ | hover
  · have hcontent : content.caches.length ≤ receiver.caches.length := by
      rw [← hbuilt.caches.length_eq, hbuilt.length]
      exact hlen
    rcases updateStateMachine_spec hreceiver.synced hcontent hack' with
      ⟨receiver', hupdate, hupdated⟩ | hover
    · exact .inl ⟨content, sender', receiver', hbuild, hupdate,
        carries_iff hbuilt hupdated hreceiver.synced⟩
    · exact .inr (.inr ⟨content, sender', hbuild, hover⟩)
  · exact .inr (.inl hover)

def releaseNode : Node := ⟨fun _ => ⟨false, fun _ => 0⟩, ⟨false, fun _ => 0, fun _ => false⟩⟩

def holding (caches : List (KvHandler ℕ ℕ)) : StateMachineMemory ℕ ℕ Unit := ⟨caches, .spawn, none, ()⟩

def five : KvHandler ℕ ℕ := store 1 5 none .spawn

theorem five_reached (w : World) : Path (Step w) .spawn [some (.put 1 5 none, none)] five :=
  Path.single (Step.served rfl)

theorem snapshot_carries_state_run :
    (holding [five]).Reached releaseNode ∧ (holding [.spawn, .spawn]).Reached releaseNode ∧
    ((∃ content sender' receiver',
      buildSnapshotData releaseNode 0 (holding [five]) = (.ok content, sender') ∧
      updateStateMachine releaseNode 0 content (holding [.spawn, .spawn]) = (.ok (), receiver') ∧
      (Carries sender' receiver' ↔ ∀ c ∈ [spawn (K := ℕ) (V := ℕ)], c.Empty)) ∨
    Overflows releaseNode.cache (buildSnapshotData releaseNode 0 (holding [five])).1 ∨
    ∃ content sender', buildSnapshotData releaseNode 0 (holding [five]) = (.ok content, sender') ∧
      Overflows releaseNode.cache
        (updateStateMachine releaseNode 0 content (holding [.spawn, .spawn])).1) := by
  have hsender : (holding [five]).Reached releaseNode := by
    rintro (- | i) c hc
    · obtain rfl := some.inj hc
      exact ⟨_, five_reached _⟩
    · simp [holding] at hc
  have hreceiver : (holding [.spawn, .spawn]).Reached releaseNode := by
    rintro (- | - | i) c hc
    · obtain rfl := some.inj hc
      exact ⟨[], Path.nil⟩
    · obtain rfl := some.inj hc
      exact ⟨[], Path.nil⟩
    · simp [holding] at hc
  exact ⟨hsender, hreceiver,
    snapshot_carries_state releaseNode releaseNode _ _ hsender hreceiver (by decide) rfl rfl⟩

/-- The receiver has a second cache with a value. After a snapshot of a sender with one empty cache it
still finds that value there. -/
theorem extra_cache_survives :
    (holding [.spawn]).Reached releaseNode ∧ (holding [.spawn, five]).Reached releaseNode ∧
    ∃ content sender' receiver',
      buildSnapshotData releaseNode 0 (holding [.spawn]) = (.ok content, sender') ∧
      updateStateMachine releaseNode 0 content (holding [.spawn, five]) = (.ok (), receiver') ∧
      receiver'.caches[1]? = some five ∧
      Step (releaseNode.cache 1) five (some (.get 1, some (.value (some 5)))) five ∧
      ¬ Carries sender' receiver' := by
  have hsynced : five.Synced := Synced.run (five_reached ⟨false, fun _ => 0⟩)
  refine ⟨?_, ?_, ⟨⟨none, ()⟩, [⟨∅, ∅⟩], ∅⟩, _, _, rfl, rfl, rfl, Step.served rfl, fun hcarries => ?_⟩
  · rintro (- | i) c hc
    · obtain rfl := some.inj hc
      exact ⟨[], Path.nil⟩
    · simp [holding] at hc
  · rintro (- | - | i) c hc
    · obtain rfl := some.inj hc
      exact ⟨[], Path.nil⟩
    · obtain rfl := some.inj hc
      exact ⟨_, five_reached _⟩
    · simp [holding] at hc
  · have hempty := (alike_spawn_iff hsynced).mp (hcarries.additional five (mem_singleton.mpr rfl))
    exact absurd (hempty.1 1) (by decide)

end Hiqlite.Cache
