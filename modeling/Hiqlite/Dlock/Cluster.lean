import Hiqlite.Dlock.Exclusion
import Hiqlite.Dlock.Panics

/-!
# D7 — the locks of a cluster

Every replica applies the committed lock entries to a handler of its own, at its own pace. The leader's
answers go to the clients; an await is answered by the replica that the client is attached to.

* **`cluster_excludes`**: one replica that answers everybody excludes;
* **`lagging_replica_tells`**: a replica that is behind does not.
-/

namespace Hiqlite.Dlock

open List Option

/-- A committed entry with its log index and the leader that answers it. -/
structure Committed (K N : Type) where
  index : ℕ
  entry : LockEntry K
  leader : N

/-- What happens in a cluster of the replicas `N`. -/
inductive Happening (K N : Type)
  | commit (entry : LockEntry K)
  /-- What the handler of `r` did, and whether a client hears of it. -/
  | did (r : N) (heard : Bool) (e : Event K)
  deriving DecidableEq

/-- A handler, how many committed entries it applied, and whether it still runs. -/
structure Replica (K : Type) where
  handler : Handler K
  applied : ℕ
  running : Bool

structure Cluster (K N : Type) where
  log : List (Committed K N)
  replicas : N → Replica K
  reads : ℕ
  history : List (Happening K N)

inductive ClusterTurn (K N : Type)
  | commit (index : ℕ) (entry : LockEntry K) (leader : N)
  | apply (r : N)
  | await (r : N) (key : K) (id : ℕ) (ack : Ack)
  | tick (r : N) (order : List K)

variable {K N : Type}

/-- Does a client hear of it? `apply` hands the answer on where the replica leads. -/
def Event.heard (leads : Bool) : Event K → Bool
  | .sent ack _ _ _ _ => leads || ack != 0
  | _ => leads

def Happening.by? [DecidableEq N] (r : N) : Happening K N → Option (Event K)
  | .did r' _ e => if r' = r then some e else none
  | .commit _ => none

namespace Cluster

def start : Cluster K N := ⟨[], fun _ => ⟨.spawn, 0, true⟩, 0, []⟩

def awake (c : Cluster K N) (r : N) : Handler K := { (c.replicas r).handler with reads := c.reads }

def next (c : Cluster K N) (r : N) : Option (Committed K N) := c.log[(c.replicas r).applied]?

variable [DecidableEq K] [DecidableEq N] (w : World)

def take (c : Cluster K N) (r : N) (leads : Bool) (applied : ℕ) (t : Turn K) :
    Option (Cluster K N) :=
  if (c.replicas r).running then
    let out := turn w t (c.awake r)
    some { c with
      replicas := Function.update c.replicas r ⟨out.2, applied, out.1.isOk⟩
      reads := out.2.reads
      history := c.history ++ (out.2.log.drop (c.replicas r).handler.log.length).map fun e =>
        .did r (e.heard leads) e }
  else none

end Cluster

variable [DecidableEq K] [DecidableEq N] (w : World)

/-- **One turn of the cluster.** -/
def step (c : Cluster K N) : ClusterTurn K N → Option (Cluster K N)
  | .commit index entry leader =>
    if ∀ x ∈ c.log, x.index < index then
      some { c with log := c.log ++ [⟨index, entry, leader⟩], history := c.history ++ [.commit entry] }
    else none
  | .apply r => do
    let x ← c.next r
    c.take w r (x.leader = r) ((c.replicas r).applied + 1) (.request (x.entry.request x.index 0))
  | .await r key id ack =>
    c.take w r false (c.replicas r).applied (.request (.await key id (ack + 1)))
  | .tick r order => c.take w r false (c.replicas r).applied (.tick order)

/-- When heartbeats of a ticket were answered `Locked`. -/
def beats (key : K) (ticket : ℕ) (hs : List (Happening K N)) : List ℤ :=
  hs.filterMap fun
    | .did _ true (.renew key' ticket' now) => if key' = key ∧ ticket' = ticket then some now else none
    | _ => none

/-- **Locks exclude each other.** Once `a` was told that it has the lock, another ticket is told so
only if the release of `a` was committed or more time than a lease passed between two heartbeats of
`a`. -/
def Excludes (hs : List (Happening K N)) : Prop :=
  ∀ before mid rest r1 r2 key a b ack1 ack2 t1 t lock1 lock2,
    hs = before ++ .did r1 true (.sent ack1 key (.locked a) t1 lock1) ::
      (mid ++ .did r2 true (.sent ack2 key (.locked b) t lock2) :: rest) → a ≠ b →
    .commit (.lockRelease key a) ∈ before ++ mid ∨
      ¬ List.IsChain (fun s s' => s' - s < w.lockValidSeconds) (t1 :: beats key a mid ++ [t])

/-! ## One replica that answers everybody -/

/-- If the ticket holds the lock when the handler decides, then its lease was given at this reading. -/
def Prompt (h : Handler K) (key : K) (id : ℕ) : Prop :=
  ∀ lock, (h.decided w key).locks.lookup key = some lock → lock.currentTicket = some id →
    (h.decided w key).time w ≤ lock.exp → lock.exp = (h.decided w key).time w + w.lockValidSeconds

/-- The replica `r` leads and answers all awaits. A holder does not claim the lock again. -/
def Central (r : N) (c : Cluster K N) : ClusterTurn K N → Prop
  | .commit _ _ leader => leader = r
  | .apply r' => r' = r → ∀ x ∈ c.next r, ∀ key id, x.entry = .lock key (some id) →
      Prompt w (c.awake r) key id
  | .await r' key id _ => r' = r ∧ Prompt w (c.awake r) key id
  | .tick _ _ => True

/-- Only the releases in `P`, no installs, and `Locked` is said of new leases. -/
def Rules.prompt {w : World} (P : K → ℕ → Prop) : Rules w K :=
  ⟨fun _ _ => True, fun _ _ _ => True, P, fun _ => False,
    fun now lock => lock.exp = now + w.lockValidSeconds, fun _ _ h => h⟩

variable {w}

theorem meets_request {h : Handler K} {entry : LockEntry K} (index : ℕ) (ack : Ack)
    (hprompt : ∀ key id, entry = .lock key (some id) → Prompt w h key id) :
    (entry.request index ack).Meets w (.prompt fun key id => entry = .lockRelease key id) h := by
  cases entry with
  | lock key id =>
    cases id with
    | none => exact ⟨fun _ => trivial, fun _ => trivial⟩
    | some id => exact ⟨fun _ => trivial, fun _ _ _ _ => trivial, hprompt key id rfl⟩
  | lockRelease key id => exact rfl
  | lockAlive key id => trivial

/-- What holds in every state, for the replica `r` that answers everybody. -/
structure Sound (w : World) (r : N) (c : Cluster K N) : Prop where
  tracked : Tracked w (w.clock 0) (c.awake r)
  fresh : ∀ ack key id now lock, .sent ack key (.locked id) now lock ∈ (c.replicas r).handler.log →
    ∃ l, lock = some l ∧ l.exp = now + w.lockValidSeconds
  logged : c.history.filterMap (Happening.by? r) = (c.replicas r).handler.log
  quiet : ∀ r' ≠ r, ∃ rs, Waiting rs (c.replicas r').handler ∧
    ∀ req ∈ rs, ∃ (entry : LockEntry K) (index : ℕ), req = entry.request index 0
  unheard : ∀ r' ≠ r, ∀ e, .did r' true e ∉ c.history
  committed : ∀ x ∈ c.log, .commit x.entry ∈ c.history ∧ x.leader = r
  released : ∀ hs hs' heard key a, c.history = hs ++ .did r heard (.release key a) :: hs' →
    .commit (.lockRelease key a) ∈ hs

variable {r : N}

theorem Sound.start : Sound w r (.start : Cluster K N) where
  tracked := Tracked.spawn
  fresh _ _ _ _ _ h := nomatch h
  logged := rfl
  quiet _ _ := ⟨[], Waiting.spawn, fun _ h => nomatch h⟩
  unheard _ _ _ h := nomatch h
  committed _ h := nomatch h
  released hs hs' heard key a h := by cases hs <;> cases h

section Take

variable {c c' : Cluster K N} {r r' : N} {leads : Bool} {n : ℕ} {t : Turn K}

theorem take_inv (hc : c.take w r' leads n t = some c') :
    ∃ es, (turn w t (c.awake r')).2.log = (c.replicas r').handler.log ++ es ∧
      c'.history = c.history ++ es.map (fun e => .did r' (e.heard leads) e) ∧
      (c'.replicas r').handler = (turn w t (c.awake r')).2 ∧
      (∀ q ≠ r', c'.replicas q = c.replicas q) ∧
      c'.reads = (turn w t (c.awake r')).2.reads ∧ c'.log = c.log := by
  have hgo := turn_goes (w := w) (R := .any) (h := c.awake r') (t := t) (meets_any _ [t]).1
  obtain ⟨es, hes, -⟩ := hgo.logs
  unfold Cluster.take at hc
  generalize turn w t (c.awake r') = out at hc hes ⊢
  split_ifs at hc
  cases hc
  have hdrop : out.2.log.drop (c.replicas r').handler.log.length = es := by
    rw [hes]
    exact drop_left
  exact ⟨es, hes, by simp [hdrop], by simp, fun q hq => by simp [hq], rfl, rfl⟩

omit [DecidableEq K] [DecidableEq N] in
theorem released_append {hs new : List (Happening K N)}
    (hold : ∀ xs ys heard key a, hs = xs ++ .did r heard (.release key a) :: ys →
      .commit (.lockRelease key a) ∈ xs)
    (hnew : ∀ heard key a, .did r heard (.release key a) ∈ new →
      .commit (.lockRelease key a) ∈ hs) :
    ∀ xs ys heard key a, hs ++ new = xs ++ .did r heard (.release key a) :: ys →
      .commit (.lockRelease key a) ∈ xs := by
  intro xs ys heard key a heq
  rcases append_eq_append_iff.mp heq with ⟨zs, rfl, hz⟩ | ⟨zs, rfl, hz⟩
  · exact mem_append_left _ (hnew heard key a (by simp [hz]))
  · cases zs with
    | nil =>
      obtain rfl : _ = new := hz
      rw [append_nil] at hnew
      exact hnew heard key a mem_cons_self
    | cons z zs =>
      obtain ⟨rfl, -⟩ := cons.inj hz
      exact hold xs zs heard key a rfl

theorem Sound.take_self (hclock : Monotone w.clock) (hs : Sound w r c) {P : K → ℕ → Prop}
    (hmeets : t.Meets w (.prompt P) (c.awake r))
    (hP : ∀ key id, P key id → .commit (.lockRelease key id) ∈ c.history)
    (hc : c.take w r leads n t = some c') : Sound w r c' := by
  obtain ⟨es, hes, hhist, hself, hother, hreads, hlog⟩ := take_inv hc
  have hgo := turn_goes hmeets
  have hnew : ∀ e ∈ es, e.Meets (.prompt (w := w) P) := by
    obtain ⟨es', hes', hnew⟩ := hgo.logs
    obtain rfl : es = es' := append_cancel_left (hes.symm.trans hes')
    exact hnew
  have hby : (es.map fun e => Happening.did r (e.heard leads) e).filterMap (Happening.by? r) = es := by
    rw [filterMap_map]
    exact (filterMap_congr fun e _ => if_pos rfl).trans filterMap_some
  constructor
  case tracked =>
    have hawake : c'.awake r = (turn w t (c.awake r)).2 := by
      rw [Cluster.awake, hself, hreads]
    rw [hawake]
    exact hs.tracked.goes hclock (fun _ h => h) hgo
  case fresh =>
    intro ack key id now lock he
    rw [hself, hes, mem_append] at he
    rcases he with he | he
    · exact hs.fresh _ _ _ _ _ he
    · exact hnew _ he
  case logged => rw [hhist, filterMap_append, hs.logged, hby, hself, hes]
  case quiet =>
    intro q hq
    rw [hother q hq]
    exact hs.quiet q hq
  case unheard =>
    intro q hq e he
    rw [hhist, List.mem_append, List.mem_map] at he
    rcases he with he | ⟨e', -, he⟩
    · exact hs.unheard q hq e he
    · exact hq (Happening.did.inj he).1.symm
  case committed =>
    intro x hx
    obtain ⟨hcommit, hleader⟩ := hs.committed x (hlog ▸ hx)
    exact ⟨hhist ▸ mem_append_left _ hcommit, hleader⟩
  case released =>
    rw [hhist]
    refine released_append hs.released fun heard key a he => ?_
    obtain ⟨e, he, heq⟩ := mem_map.mp he
    obtain rfl := (Happening.did.inj heq).2.2
    exact hP key a (hnew _ he)

theorem Sound.take_other (hclock : Monotone w.clock) (hs : Sound w r c) (hr : r' ≠ r)
    (hcalls : ∀ req ∈ t.calls, ∃ (entry : LockEntry K) (index : ℕ), req = entry.request index 0)
    (hc : c.take w r' false n t = some c') : Sound w r c' := by
  obtain ⟨es, hes, hhist, hself, hother, hreads, hlog⟩ := take_inv hc
  have hgo := turn_goes (w := w) (R := .any) (h := c.awake r') (t := t) (meets_any _ [t]).1
  obtain ⟨rs, hw, hrs⟩ := hs.quiet r' hr
  have hawake : Waiting rs (c.awake r') :=
    hw.quiet [] rfl (append_nil _).symm (fun _ h => nomatch h) fun _ _ h => h
  have hw' := hawake.goes hgo
  have hreqs : ∀ req ∈ rs ++ t.calls, ∃ (entry : LockEntry K) (index : ℕ),
      req = entry.request index 0 := fun req hreq =>
    (mem_append.mp hreq).elim (hrs req) (hcalls req)
  have hby : (es.map fun e => Happening.did r' (e.heard false) e).filterMap (Happening.by? r) = [] := by
    rw [filterMap_map]
    exact filterMap_eq_nil_iff.mpr fun e _ => by simp [Happening.by?, hr]
  -- what the replica sends, it sends to the channel of `apply`
  have hdeaf : ∀ e ∈ es, e.heard false = false := by
    intro e he
    cases e with
    | sent ack key state now lock =>
      obtain ⟨req, hreq, hgets, -⟩ := hw'.sent ack key state now lock
        (by rw [hes]; exact mem_append_right _ he)
      obtain ⟨entry, index, rfl⟩ := hreqs req hreq
      have hack := hgets.ack?_eq
      cases entry with
      | lock key id => cases id <;> cases hack <;> rfl
      | lockRelease => cases hack
      | lockAlive => cases hack; rfl
    | _ => rfl
  have hsame := hother r (Ne.symm hr)
  constructor
  case tracked =>
    have hle : c.reads ≤ c'.reads := by
      rw [hreads]
      exact hgo.reads_le
    have hawake : c'.awake r = { c.awake r with reads := c'.reads } := by
      rw [Cluster.awake, Cluster.awake, hsame]
    rw [hawake]
    exact hs.tracked.later hclock hle
  case fresh =>
    rw [hsame]
    exact hs.fresh
  case logged => rw [hhist, filterMap_append, hby, append_nil, hsame, hs.logged]
  case quiet =>
    intro q hq
    by_cases hqr : q = r'
    · subst hqr
      rw [hself]
      exact ⟨_, hw', hreqs⟩
    · rw [hother q hqr]
      exact hs.quiet q hq
  case unheard =>
    intro q hq e he
    rw [hhist, List.mem_append, List.mem_map] at he
    rcases he with he | ⟨e', he', heq⟩
    · exact hs.unheard q hq e he
    · have := (Happening.did.inj heq).2.1
      rw [hdeaf e' he'] at this
      cases this
  case committed =>
    intro x hx
    obtain ⟨hcommit, hleader⟩ := hs.committed x (hlog ▸ hx)
    exact ⟨hhist ▸ mem_append_left _ hcommit, hleader⟩
  case released =>
    rw [hhist]
    refine released_append hs.released fun heard key a he => ?_
    obtain ⟨e, -, heq⟩ := mem_map.mp he
    exact (hr (Happening.did.inj heq).1).elim

end Take

theorem Sound.step (hclock : Monotone w.clock) {c c' : Cluster K N} (hs : Sound w r c)
    {t : ClusterTurn K N} (hcentral : Central w r c t) (hc : step w c t = some c') :
    Sound w r c' := by
  cases t with
  | commit index entry leader =>
    obtain rfl : leader = r := hcentral
    simp only [Dlock.step] at hc
    split_ifs at hc
    cases hc
    refine ⟨hs.tracked, hs.fresh, ?_, hs.quiet, fun q hq e he => ?_, fun x hx => ?_, ?_⟩
    · rw [filterMap_append, hs.logged]
      exact append_nil _
    · exact hs.unheard q hq e (by simpa using he)
    · rcases mem_append.mp hx with hx | hx
      · exact ⟨mem_append_left _ (hs.committed x hx).1, (hs.committed x hx).2⟩
      · rw [mem_singleton.mp hx]
        exact ⟨by simp, rfl⟩
    · exact released_append hs.released fun heard key a he => by simp at he
  | apply r' =>
    obtain ⟨x, hx, hc⟩ := bind_eq_some_iff.mp hc
    obtain ⟨hcommit, hleader⟩ := hs.committed x (mem_of_getElem? hx)
    by_cases hr : r' = r
    · subst hr
      exact hs.take_self hclock (P := fun key id => x.entry = .lockRelease key id)
        (t := .request (x.entry.request x.index 0)) (meets_request x.index 0 (hcentral rfl x hx))
        (fun key id heq => heq ▸ hcommit) hc
    · rw [show decide (x.leader = r') = false from decide_eq_false (hleader ▸ Ne.symm hr)] at hc
      refine hs.take_other hclock hr (fun req hreq => ⟨x.entry, x.index, ?_⟩) hc
      simpa [Turn.calls, Turn.req?] using (mem_filter.mp hreq).1
  | await r' key id ack =>
    obtain ⟨rfl, hprompt⟩ := hcentral
    exact hs.take_self hclock (P := fun _ _ => False) (t := .request (.await key id (ack + 1)))
      hprompt (fun _ _ h => h.elim) hc
  | tick r' order =>
    by_cases hr : r' = r
    · subst hr
      exact hs.take_self hclock (P := fun _ _ => False) (t := .tick order) trivial
        (fun _ _ h => h.elim) hc
    · exact hs.take_other hclock hr (fun req hreq => by simp [Turn.calls, Turn.req?] at hreq) hc

/-- The events of the leases of the replica `r` in a history. -/
def leasesOf (r : N) (hs : List (Happening K N)) : List (Lease.Event K) :=
  leases (hs.filterMap (Happening.by? r))

section

omit [DecidableEq K]

theorem leasesOf_append (r : N) (hs hs' : List (Happening K N)) :
    leasesOf r (hs ++ hs') = leasesOf r hs ++ leasesOf r hs' := by
  simp [leasesOf]

theorem leasesOf_cons (r : N) (heard : Bool) {e : Event K} {x : Lease.Event K}
    (he : e.lease = some x) (hs : List (Happening K N)) :
    leasesOf r (.did r heard e :: hs) = x :: leasesOf r hs := by
  simp [leasesOf, leases, Happening.by?, he]

theorem mem_of_release {hs : List (Happening K N)} {key : K} {a : ℕ}
    (h : .release key a ∈ leasesOf r hs) : ∃ heard, .did r heard (.release key a) ∈ hs := by
  obtain ⟨x, hx, hxe⟩ := mem_filterMap.mp (mem_of_mem_leases h)
  cases x with
  | commit entry => cases hxe
  | did q heard e' =>
    simp only [Happening.by?, ite_none_right_eq_some, some.injEq] at hxe
    obtain ⟨rfl, rfl⟩ := hxe
    exact ⟨heard, hx⟩

end

omit [DecidableEq N] in
theorem mem_of_beat {hs : List (Happening K N)} {key : K} {a : ℕ} {s : ℤ} (h : s ∈ beats key a hs) :
    ∃ r, .did r true (.renew key a s) ∈ hs := by
  obtain ⟨x, hx, hxs⟩ := List.mem_filterMap.mp h
  split at hxs
  · simp only [Option.ite_none_right_eq_some, Option.some.injEq] at hxs
    obtain ⟨⟨rfl, rfl⟩, rfl⟩ := hxs
    exact ⟨_, hx⟩
  · cases hxs

/-- **One replica that answers everybody excludes**, however late the entries are applied and
whenever the replicas sweep. -/
theorem cluster_excludes (hclock : Monotone w.clock) (r : N) (ts : List (ClusterTurn K N))
    {c : Cluster K N}
    (hrun : Path (fun c t c' => Central w r c t ∧ step w c t = some c') .start ts c) :
    Excludes w c.history := by
  have hs : Sound w r c := hrun.invariant (I := fun _ => Sound w r) Sound.start
    fun _ _ _ _ ih h => ih.step hclock h.1 h.2
  intro before mid rest r1 r2 key a b ack1 ack2 t1 t lock1 lock2 hhist hab
  -- both were told by the replica `r`
  have hmem : ∀ q x, .did q true x ∈ c.history → r = q := fun q x hx =>
    by_contra fun hne => hs.unheard q (Ne.symm hne) x hx
  obtain rfl : r = r1 := hmem r1 (.sent ack1 key (.locked a) t1 lock1) (by rw [hhist]; simp)
  obtain rfl : r = r2 := hmem r2 (.sent ack2 key (.locked b) t lock2) (by rw [hhist]; simp)
  have hfirst : .sent ack1 key (.locked a) t1 lock1 ∈ (c.replicas r).handler.log := by
    rw [← hs.logged, hhist]
    simp [Happening.by?]
  obtain ⟨l, rfl, hexp⟩ := hs.fresh _ _ _ _ _ hfirst
  obtain ⟨reg, hpath, -⟩ := hs.tracked
  have hlog : leases (c.awake r).log = leasesOf r before ++ .told key a t1 l.exp ::
      (leasesOf r mid ++ .told key b t (lock2.elim t LockQueue.exp) :: leasesOf r rest) := by
    change leases (c.replicas r).handler.log = _
    rw [← hs.logged, hhist, ← leasesOf, leasesOf_append, leasesOf_cons r true rfl, leasesOf_append,
      leasesOf_cons r true rfl]
    rfl
  rw [hlog] at hpath
  rcases Lease.exclusive hpath hab with hrel | ⟨e, hend, hlt⟩
  · obtain ⟨heard, hrel⟩ := mem_of_release hrel
    obtain ⟨xs, ys, rfl⟩ := append_of_mem hrel
    have hcommit := hs.released (before ++ .did r true (.sent ack1 key (.locked a) t1 (some l)) :: xs)
      (ys ++ .did r true (.sent ack2 key (.locked b) t lock2) :: rest) heard key a
      (by rw [hhist]; simp)
    left
    simp only [mem_append, mem_cons] at hcommit ⊢
    tauto
  · refine .inr fun hchain => ?_
    -- every heartbeat that was answered gave a lease, and the last one is less than a lease ago
    rw [← cons_append, ← append_assoc] at hpath
    obtain ⟨reg', hpath', -⟩ := hpath.of_append
    have hbeats : ∀ s ∈ t1 :: beats key a mid, s + w.lockValidSeconds ≤ e := by
      intro s hs'
      rcases mem_cons.mp hs' with rfl | hs'
      · obtain ⟨e', hend', hle⟩ := Lease.leaseEnd_of_told hpath'
        rw [hend] at hend'
        cases hend'
        rwa [hexp] at hle
      · obtain ⟨q, hq⟩ := mem_of_beat hs'
        obtain rfl : r = q := hmem q (.renew key a s) (by rw [hhist]; simp [hq])
        obtain ⟨xs, ys, rfl⟩ := append_of_mem hq
        rw [leasesOf_append, leasesOf_cons r true rfl, ← cons_append,
          ← append_assoc] at hpath' hend
        obtain ⟨e', hend', hle⟩ := Lease.leaseEnd_of_renew hpath'
        rw [hend] at hend'
        cases hend'
        exact hle
    have hlast := hbeats _ (getLast_mem (cons_ne_nil t1 (beats key a mid)))
    have hgap := (isChain_append.mp hchain).2.2 _ (getLast?_eq_some_getLast
      (cons_ne_nil t1 (beats key a mid))) t rfl
    omega

/-- A heartbeat is answered after nine seconds, and the replica that is behind sweeps after eleven.
-/
def lagging : World :=
  ⟨false, fun n => if n < 2 then 0 else if n < 8 then 1 else if n < 9 then 9 else 11, fun _ => false⟩

theorem lagging_monotone : Monotone lagging.clock := by
  intro m n hmn
  simp only [lagging]
  split_ifs <;> omega

instance (h : Handler K) (key : K) (id : ℕ) : Decidable (Prompt w h key id) :=
  inferInstanceAs (Decidable (∀ lock ∈ (h.decided w key).locks.lookup key, _ → _ → _))

instance (h : Handler K) :
    (entry : LockEntry K) → Decidable (∀ key id, entry = .lock key (some id) → Prompt w h key id)
  | .lock key (some id) => decidable_of_iff (Prompt w h key id)
      ⟨fun hp _ _ he => by cases he; exact hp, fun hp => hp key id rfl⟩
  | .lock _ none | .lockRelease _ _ | .lockAlive _ _ => .isTrue nofun

instance (r : N) (c : Cluster K N) : DecidablePred (Central w r c)
  | .commit _ _ leader => inferInstanceAs (Decidable (leader = r))
  | .apply r' => inferInstanceAs (Decidable (r' = r → ∀ x ∈ c.next r, ∀ _ _, _ → _))
  | .await r' key id _ => inferInstanceAs (Decidable (r' = r ∧ Prompt w (c.awake r) key id))
  | .tick _ _ => inferInstanceAs (Decidable True)

/-- The client of ticket 2 waits at the leader, the follower takes the lease of ticket 1 for over, and
ticket 1 is released after a heartbeat. -/
def released : List (ClusterTurn ℕ Bool) :=
  [.commit 1 (.lock 7 none) true, .apply true, .apply false, .commit 2 (.lock 7 none) true,
    .apply true, .apply false, .await true 7 2 0, .commit 3 (.lockAlive 7 1) true, .apply true,
    .tick true [7], .tick false [7], .commit 4 (.lockRelease 7 1) true, .apply true]

/-- What clients hear of the lock: who has it, and when. -/
def tells : Happening ℕ Bool → Option (ℕ × ℤ)
  | .did _ true (.sent _ _ (.locked id) now _) => some (id, now)
  | _ => none

theorem cluster_excludes_run : ∃ c : Cluster ℕ Bool,
    Path (fun c t c' => Central lagging true c t ∧ step lagging c t = some c') .start released c ∧
      beats 7 1 c.history = [9] ∧ c.history.filterMap tells = [(1, 0), (1, 9), (2, 11)] ∧
      Excludes lagging c.history := by
  have hend : (released.foldlM (fun c t => if Central lagging true c t then step lagging c t else none)
      .start).map (fun c => (beats 7 1 c.history, c.history.filterMap tells)) =
        some ([9], [(1, 0), (1, 9), (2, 11)]) := by decide +kernel
  obtain ⟨c, hc, htold⟩ := Option.map_eq_some_iff.mp hend
  have hrun := Path.of_foldlM_if hc
  obtain ⟨hbeats, htells⟩ := Prod.mk.inj htold
  exact ⟨c, hrun, hbeats, htells, cluster_excludes lagging_monotone true released hrun⟩

/-- **A replica that is behind tells a second client.** Both replicas have applied the entries of the
tickets 1 and 2, the second client waits at the follower. The heartbeat of ticket 1 is committed and
answered `Locked` by the leader. The follower has not applied it, finds the lease over when it sweeps
and tells the second client that it has the lock. -/
theorem lagging_replica_tells : Monotone lagging.clock ∧ ∃ c : Cluster ℕ Bool,
    [ClusterTurn.commit 1 (.lock 7 none) true, .apply true, .apply false,
      .commit 2 (.lock 7 none) true, .apply true, .apply false, .await false 7 2 0,
      .commit 3 (.lockAlive 7 1) true, .apply true, .tick false [7]].foldlM (step lagging) .start =
        some c ∧ ¬ Excludes lagging c.history := by
  refine ⟨lagging_monotone, _, rfl, fun hex => ?_⟩
  rcases hex [.commit (.lock 7 none), .did true true (.grant 7 1 0 .first [])]
    [.did false false (.grant 7 1 0 .first []),
      .did false false (.sent 0 7 (.locked 1) 0 (some ⟨some 1, 10, []⟩)),
      .commit (.lock 7 none), .did true true (.sent 0 7 (.queued 2) 1 (some ⟨some 1, 10, [2]⟩)),
      .did false false (.sent 0 7 (.queued 2) 1 (some ⟨some 1, 10, [2]⟩)),
      .commit (.lockAlive 7 1), .did true true (.renew 7 1 9),
      .did true true (.sent 0 7 (.locked 1) 9 (some ⟨some 1, 19, [2]⟩)),
      .did false false (.grant 7 2 11 .promotion [2])] []
    true false 7 1 2 0 1 0 11 (some ⟨some 1, 10, []⟩) (some ⟨some 2, 21, []⟩) (by decide +kernel)
    (by decide) with hrel | hchain
  · simp at hrel
  · exact hchain (by decide)

end Hiqlite.Dlock
