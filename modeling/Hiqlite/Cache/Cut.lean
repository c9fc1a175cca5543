import Hiqlite.Cache.Apply

/-!
# E6 — a snapshot is cut at its log id

While a build has the lock, `apply` sends nothing. What is behind a `SnapshotBuild` in a channel changes
nothing, so the snapshot has the effects of everything that was ever sent to the cache.

* **`Inv`**, **`Inv.step`**: the invariant, with one lemma for each move;
* **`snapshot_cut`**; `snapshot_without_id`.
-/

namespace Hiqlite.Cache

open List Option Function

variable {K V M : Type} [DecidableEq K]

/-! ## Handlers without expiries -/

def KvHandler.NoExpiry (c : KvHandler K V) : Prop :=
  c.expiries = ∅ ∧ ∀ k v x, c.values.lookup k = some (v, x) → x = none

omit [DecidableEq K] in
def CacheRequestHandler.NoExpiry : CacheRequestHandler K V → Prop
  | .put _ _ expires | .replace _ _ expires => expires = none
  | .snapshotInstall _ => False
  | _ => True

section Handler

variable {w : World} {c : KvHandler K V}

theorem spawn_noExpiry : (KvHandler.spawn : KvHandler K V).NoExpiry :=
  ⟨rfl, fun _ _ _ h => (nomatch h)⟩

section

variable (h : c.NoExpiry)
include h

theorem KvHandler.NoExpiry.dropExpiry (key : K) : c.dropExpiry key = c := by
  unfold KvHandler.dropExpiry KvHandler.expiryOf
  cases hentry : c.values.lookup key with
  | none => rfl
  | some e =>
    obtain ⟨v, x⟩ := e
    obtain rfl := h.2 key v x hentry
    rfl

theorem KvHandler.NoExpiry.store (key : K) (value : V) : (c.store key value none).NoExpiry := by
  unfold KvHandler.store
  rw [h.dropExpiry]
  refine ⟨h.1, fun k v x hk => ?_⟩
  by_cases heq : k = key
  · subst heq
    simp only [AList.lookup_insert, some.injEq, Prod.mk.injEq] at hk
    exact hk.2.symm
  · rw [AList.lookup_insert_ne heq] at hk
    exact h.2 k v x hk

theorem KvHandler.NoExpiry.discard (key : K) : (c.discard key).NoExpiry := by
  unfold KvHandler.discard
  rw [h.dropExpiry]
  exact ⟨h.1, fun k v x hk => h.2 k v x (Table.mem_lookup_erase hk)⟩

theorem KvHandler.NoExpiry.lookup (key : K) (d : KvHandler K V) :
    lookup w (c.values.lookup key) d = (.ok ((c.values.lookup key).map Prod.fst), d) := by
  cases hentry : c.values.lookup key with
  | none => rfl
  | some e =>
    obtain ⟨v, x⟩ := e
    obtain rfl := h.2 key v x hentry
    rfl

/-- **What a request does without expiries**: a read leaves the handler as it is. -/
theorem process_noExpiry {req : CacheRequestHandler K V} (hreq : req.NoExpiry) :
    ∃ reply c', process w req c = (.ok reply, c') ∧ c'.NoExpiry ∧ (req.reads = true → c' = c) ∧
      (req = .snapshotBuild → reply = some (.snapshot ⟨c.values, c.counters⟩)) := by
  cases req with
  | get key =>
    exact ⟨_, c, Exec.bind_ok (h.lookup key c), h, fun _ => rfl, fun heq => (nomatch heq)⟩
  | getRemove key =>
    exact ⟨_, c.discard key, Exec.bind_ok (h.lookup key _), h.discard key, fun hr => (nomatch hr),
      fun heq => (nomatch heq)⟩
  | put key value expires =>
    obtain rfl : expires = none := hreq
    exact ⟨_, _, rfl, h.store key value, fun hr => (nomatch hr), fun heq => (nomatch heq)⟩
  | replace key value expires =>
    obtain rfl : expires = none := hreq
    exact ⟨_, _, rfl, h.store key value, fun hr => (nomatch hr), fun heq => (nomatch heq)⟩
  | delete key => exact ⟨_, _, rfl, h.discard key, fun hr => (nomatch hr), fun heq => (nomatch heq)⟩
  | clear =>
    exact ⟨_, _, rfl, ⟨rfl, fun _ _ _ hk => (nomatch hk)⟩, fun hr => (nomatch hr),
      fun heq => (nomatch heq)⟩
  | snapshotInstall s => exact hreq.elim
  | snapshotBuild => exact ⟨_, c, rfl, h, fun _ => rfl, fun _ => rfl⟩
  | snapshotBuildCacheOnly => exact ⟨_, c, rfl, h, fun _ => rfl, fun heq => (nomatch heq)⟩
  | counterGet key => exact ⟨_, c, rfl, h, fun _ => rfl, fun heq => (nomatch heq)⟩
  | _ => exact ⟨_, _, rfl, h, fun hr => (nomatch hr), fun heq => (nomatch heq)⟩

theorem KvHandler.NoExpiry.iteration (req : CacheRequestHandler K V) :
    iteration w (some req) c = select w (some req) c := by
  have hfirst : c.firstExpiry = none := by
    rw [KvHandler.firstExpiry, h.1]
    rfl
  rw [Cache.iteration, Exec.get_bind, hfirst]

end

def replay (w : World) (c : KvHandler K V) (reqs : List (CacheRequestHandler K V)) : KvHandler K V :=
  reqs.foldl (fun c req => (process w req c).2) c

theorem replay_append (reqs reqs' : List (CacheRequestHandler K V)) :
    replay w c (reqs ++ reqs') = replay w (replay w c reqs) reqs' :=
  foldl_append

theorem replay_noExpiry (h : c.NoExpiry) {reqs : List (CacheRequestHandler K V)}
    (hreqs : ∀ req ∈ reqs, req.NoExpiry) : (replay w c reqs).NoExpiry := by
  induction reqs generalizing c with
  | nil => exact h
  | cons req reqs ih =>
    obtain ⟨reply, c', hprocess, hc', -⟩ := process_noExpiry (w := w) h (hreqs req mem_cons_self)
    rw [replay, foldl_cons, hprocess]
    exact ih hc' fun r hr => hreqs r (mem_cons_of_mem _ hr)

theorem replay_reads (h : c.NoExpiry) {reqs : List (CacheRequestHandler K V)}
    (hreqs : ∀ req ∈ reqs, req.NoExpiry) (hreads : ∀ req ∈ reqs, req.reads = true) :
    replay w c reqs = c := by
  induction reqs with
  | nil => rfl
  | cons req reqs ih =>
    obtain ⟨reply, c', hprocess, -, hread, -⟩ :=
      process_noExpiry (w := w) h (hreqs req mem_cons_self)
    obtain rfl := hread (hreads req mem_cons_self)
    rw [replay, foldl_cons, hprocess]
    exact ih (fun r hr => hreqs r (mem_cons_of_mem _ hr)) fun r hr =>
      hreads r (mem_cons_of_mem _ hr)

end Handler

def KvHandler.contents (c : KvHandler K V) : CacheSnapshot K V := ⟨c.values, c.counters⟩

/-! ## What entries do -/

def Instr.to (i : ℕ) : Instr K V M → Option (CacheRequestHandler K V)
  | .send idx req _ => if idx = i then some req else none
  | _ => none

def messagesTo (n i : ℕ) (es : List (Entry K V M)) : List (CacheRequestHandler K V) :=
  (es.flatMap (Entry.instrs n)).filterMap (Instr.to i)

/-- The id of the last entry, after the id `last`. -/
def lastOf (last : Option LogId) (es : List (Entry K V M)) : Option LogId :=
  (es.getLast?.map Entry.logId).or last

/-- The value of `last_applied_log_id` after some more instructions. -/
def lastAfter (last : Option LogId) (todo : List (Instr K V M)) : Option LogId :=
  todo.foldl (fun last instr => match instr with
    | .entry logId => some logId
    | _ => last) last

def Instr.Sane (n : ℕ) : Instr K V M → Prop
  | .send idx req _ => idx < n ∧ req.NoExpiry
  | .unreachable => False
  | _ => True

def Entry.Sane (n : ℕ) (e : Entry K V M) : Prop := ∀ instr ∈ e.instrs n, instr.Sane n

section

omit [DecidableEq K]

theorem messagesTo_append (n i : ℕ) (es es' : List (Entry K V M)) :
    messagesTo n i (es ++ es') = messagesTo n i es ++ messagesTo n i es' := by
  rw [messagesTo, flatMap_append, filterMap_append]
  rfl

theorem lastAfter_instrs (n : ℕ) (e : Entry K V M) (last : Option LogId) :
    lastAfter last (e.instrs n) = some e.logId := by
  obtain ⟨logId, payload⟩ := e
  cases payload with
  | blank | membership => rfl
  | normal req =>
    cases req with
    | clearAll =>
      have hall : ∀ (l : List ℕ) (last : Option LogId), lastAfter last
          (l.flatMap fun i => [.send i .clear false, .send i .clearCounters false] :
            List (Instr K V M)) = last := by
        intro l
        induction l with
        | nil => exact fun last => rfl
        | cons i l ih => exact fun last => ih last
      exact hall (range n) (some logId)
    | _ => rfl

theorem lastAfter_flatMap (n : ℕ) (es : List (Entry K V M)) (last : Option LogId) :
    lastAfter last (es.flatMap (Entry.instrs n)) = lastOf last es := by
  induction es generalizing last with
  | nil => rfl
  | cons e es ih =>
    have happend : lastAfter last (e.instrs n ++ es.flatMap (Entry.instrs n)) =
        lastAfter (lastAfter last (e.instrs n)) (es.flatMap (Entry.instrs n)) := foldl_append
    rw [flatMap_cons, happend, lastAfter_instrs, ih, lastOf, lastOf, getLast?_cons]
    cases es.getLast? <;> rfl

end

/-! ## The invariant -/

/-- What stands behind a build in a channel is a read. -/
def Follows (m m' : Message K V) : Prop :=
  ∀ b, m.replyTo = .builder b → m'.req.reads = true ∧ m'.replyTo ≠ .builder b

section Invariant

variable (n : ℕ) (w : ℕ → World) (base : ℕ → KvHandler K V) (last : Option LogId)

/-- **The channels**: with all messages taken, the caches have what was sent. -/
structure Flow (sent : ℕ → List (CacheRequestHandler K V)) (s : System K V M) : Prop where
  calm : ∀ i, (s.caches i).NoExpiry
  plain : ∀ i, ∀ m ∈ s.channels i, m.req.NoExpiry
  drained : ∀ i, replay (w i) (s.caches i) ((s.channels i).map Message.req) =
    replay (w i) (base i) (sent i)

/-- What a build has to find in the cache `i`. -/
def cut (sent : ℕ → List (CacheRequestHandler K V)) (i : ℕ) : CacheSnapshot K V :=
  (replay (w i) (base i) (sent i)).contents

/-- **The builds**: each one has found what was sent. -/
structure Asks (sent : ℕ → List (CacheRequestHandler K V)) (s : System K V M) : Prop where
  order : ∀ i, (s.channels i).Pairwise Follows
  asked : ∀ i, ∀ m ∈ s.channels i, ∀ b : ℕ, m.replyTo = .builder b → m.req = .snapshotBuild ∧
    i < n ∧ ∃ caches, s.builders[b]? = some (Builder.building caches true) ∧ caches.length = i
  found : ∀ (b : ℕ) caches waiting, s.builders[b]? = some (Builder.building caches waiting) →
    caches.length ≤ n ∧ caches = (range caches.length).map (cut w base sent)

/-- **The batches**: what is sent and to be sent are the messages of all entries. -/
def Task (sent : ℕ → List (CacheRequestHandler K V)) (s : System K V M) : Prop :=
  match s.apply with
  | .idle => (∀ i, messagesTo n i s.entries = sent i) ∧ s.lastAppliedLogId = lastOf last s.entries
  | .running todo l _ =>
    (∀ i, messagesTo n i s.entries = sent i ++ todo.filterMap (Instr.to i)) ∧
      lastAfter l todo = lastOf last s.entries ∧ (∀ instr ∈ todo, instr.Sane n) ∧
      s.builders.all Builder.isDone = true
  | .panicked => False

/-- A snapshot that has the effects of the entries `es`. -/
def SnapshotOf (es : List (Entry K V M))
    (snapshot : SnapshotMeta (Option LogId × M) × List (CacheSnapshot K V)) : Prop :=
  snapshot.1.lastLogId = lastOf last es ∧
    snapshot.2 = (range n).map (cut w base fun i => messagesTo n i es)

structure Inv (s : System K V M) : Prop where
  run : ∃ sent, Flow w base sent s ∧ Asks n w base sent s ∧ Task n last sent s
  built : ∀ snapshot ∈ s.snapshots, ∃ es, es <+: s.entries ∧ SnapshotOf n w base last es snapshot

end Invariant

variable {n : ℕ} {w : ℕ → World} {base : ℕ → KvHandler K V} {last : Option LogId}
  {sent : ℕ → List (CacheRequestHandler K V)} {s : System K V M}

/-! ## Messages -/

section Push

variable {i : ℕ} {m : Message K V}

section

omit [DecidableEq K]

@[simp] theorem push_channels_self : (s.push i m).channels i = s.channels i ++ [m] :=
  update_self ..

theorem push_channels_ne {j : ℕ} (hj : j ≠ i) : (s.push i m).channels j = s.channels j :=
  update_of_ne hj ..

theorem mem_push {j : ℕ} {m' : Message K V} (hm' : m' ∈ (s.push i m).channels j) :
    m' ∈ s.channels j ∨ j = i ∧ m' = m := by
  by_cases hj : j = i
  · subst hj
    rw [push_channels_self, mem_append, mem_singleton] at hm'
    exact hm'.imp_right fun h => ⟨rfl, h⟩
  · rw [push_channels_ne hj] at hm'
    exact .inl hm'

end

section

variable (h : Flow w base sent s)
include h

theorem Flow.push (hm : m.req.NoExpiry) {sent' : ℕ → List (CacheRequestHandler K V)}
    (hother : ∀ j, j ≠ i → sent' j = sent j)
    (hself : replay (w i) (replay (w i) (base i) (sent i)) [m.req] = replay (w i) (base i) (sent' i)) :
    Flow w base sent' (s.push i m) := by
  refine ⟨h.calm, fun j m' hm' => ?_, fun j => ?_⟩
  · rcases mem_push hm' with hmem | ⟨rfl, rfl⟩
    · exact h.plain j m' hmem
    · exact hm
  · by_cases hj : j = i
    · subst hj
      rw [push_channels_self, map_append, replay_append]
      have hdrained := h.drained j
      change replay (w j) (replay (w j) (s.caches j) _) _ = _
      rw [hdrained]
      exact hself
    · rw [push_channels_ne hj, hother j hj]
      exact h.drained j

theorem Flow.push_sent (hm : m.req.NoExpiry) :
    Flow w base (update sent i (sent i ++ [m.req])) (s.push i m) := by
  refine h.push hm (fun j hj => update_of_ne hj ..) ?_
  rw [update_self, replay_append]

theorem Flow.noExpiry (i : ℕ) : (replay (w i) (base i) (sent i)).NoExpiry := by
  rw [← h.drained i]
  refine replay_noExpiry (h.calm i) fun req hreq => ?_
  obtain ⟨m, hm, rfl⟩ := mem_map.mp hreq
  exact h.plain i m hm

theorem Flow.push_read (hm : m.req.NoExpiry) (hread : m.req.reads = true) :
    Flow w base sent (s.push i m) := by
  refine h.push hm (fun _ _ => rfl) (replay_reads (h.noExpiry i) ?_ ?_)
  · exact fun req hreq => mem_singleton.mp hreq ▸ hm
  · exact fun req hreq => mem_singleton.mp hreq ▸ hread

end

theorem Asks.push (h : Asks n w base sent s) (hfollow : ∀ m' ∈ s.channels i, Follows m' m)
    (hasked : ∀ b : ℕ, m.replyTo = .builder b → m.req = .snapshotBuild ∧ i < n ∧
      ∃ caches, s.builders[b]? = some (Builder.building caches true) ∧ caches.length = i) :
    Asks n w base sent (s.push i m) := by
  refine ⟨fun j => ?_, fun j m' hm' b hb => ?_, h.found⟩
  · by_cases hj : j = i
    · subst hj
      rw [push_channels_self, pairwise_append]
      refine ⟨h.order j, pairwise_singleton .., fun m' hm' m'' hm'' => ?_⟩
      rw [mem_singleton.mp hm'']
      exact hfollow m' hm'
    · rw [push_channels_ne hj]
      exact h.order j
  · rcases mem_push hm' with hmem | ⟨rfl, rfl⟩
    · exact h.asked j m' hmem b hb
    · exact hasked b hb

omit [DecidableEq K] in
theorem not_building (hdone : s.builders.all Builder.isDone = true) {b : ℕ}
    {caches : List (CacheSnapshot K V)} {waiting : Bool} :
    s.builders[b]? ≠ some (Builder.building caches waiting) := by
  intro hb
  have hmem := mem_of_getElem? hb
  exact absurd (all_eq_true.mp hdone _ hmem) (by simp [Builder.isDone])

theorem Asks.send (h : Asks n w base sent s) (hdone : s.builders.all Builder.isDone = true)
    (hm : ∀ b, m.replyTo ≠ .builder b) (sent' : ℕ → List (CacheRequestHandler K V)) :
    Asks n w base sent' (s.push i m) := by
  have h' : Asks n w base sent' s :=
    ⟨h.order, h.asked, fun b caches waiting hb => absurd hb (not_building hdone)⟩
  refine h'.push (fun m' hm' b hb => ?_) fun b hb => absurd hb (hm b)
  obtain ⟨-, -, caches, hb', -⟩ := h.asked i m' hm' b hb
  exact absurd hb' (not_building hdone)

end Push

/-! ## The moves of `apply` -/

theorem Inv.startBatch (h : Inv n w base last s) (hidle : s.apply = .idle)
    (hdone : s.builders.all Builder.isDone = true) {es : List (Entry K V M)} (hes : es ≠ [])
    (hsane : ∀ e ∈ es, e.Sane n) : Inv n w base last { s with
      apply := .running (es.flatMap (Entry.instrs n)) none false, entries := s.entries ++ es } := by
  obtain ⟨⟨sent, hflow, hasks, htask⟩, hbuilt⟩ := h
  rw [Task, hidle] at htask
  refine ⟨⟨sent, { hflow with }, { hasks with },
    fun i => ?_, ?_, fun instr hinstr => ?_, hdone⟩, fun snapshot hsnap => ?_⟩
  · change messagesTo n i (s.entries ++ es) = _
    rw [messagesTo_append, htask.1 i]
    rfl
  · change _ = lastOf last (s.entries ++ es)
    rw [lastAfter_flatMap, lastOf, lastOf, getLast?_append]
    obtain ⟨e, he⟩ := ne_none_iff_exists'.mp (mt getLast?_eq_none_iff.mp hes)
    rw [he]
    rfl
  · obtain ⟨e, he, hmem⟩ := mem_flatMap.mp hinstr
    exact hsane e he instr hmem
  · obtain ⟨es', hpre, hof⟩ := hbuilt snapshot hsnap
    exact ⟨es', hpre.trans (prefix_append ..), hof⟩

variable {l : Option LogId} {todo : List (Instr K V M)} {b : ℕ} {caches : List (CacheSnapshot K V)}

section

variable (h : Inv n w base last s)
include h

theorem Inv.endBatch (happly : s.apply = .running [] l false) :
    Inv n w base last { s with apply := .idle, lastAppliedLogId := l } := by
  obtain ⟨⟨sent, hflow, hasks, htask⟩, hbuilt⟩ := h
  rw [Task, happly] at htask
  obtain ⟨hsent, hlast, -, -⟩ := htask
  refine ⟨⟨sent, { hflow with }, { hasks with }, fun i => ?_, hlast⟩, hbuilt⟩
  simpa using hsent i

theorem Inv.goOn {instr : Instr K V M} {l' : Option LogId}
    (happly : s.apply = .running (instr :: todo) l false) (hto : ∀ i, instr.to i = none)
    (hl : lastAfter l (instr :: todo) = lastAfter l' todo) (mem : Option LogId × M) :
    Inv n w base last { s with lastMembership := mem, apply := .running todo l' false } := by
  obtain ⟨⟨sent, hflow, hasks, htask⟩, hbuilt⟩ := h
  rw [Task, happly] at htask
  obtain ⟨hsent, hlast, hsane, hdone⟩ := htask
  refine ⟨⟨sent, { hflow with }, { hasks with },
    fun i => ?_, ?_, fun x hx => hsane x (mem_cons_of_mem _ hx), hdone⟩, hbuilt⟩
  · rw [hsent i, filterMap_cons_none (hto i)]
  · rw [← hl]
    exact hlast

theorem Inv.send {idx : ℕ} {req : CacheRequestHandler K V} {wait : Bool}
    (happly : s.apply = .running (.send idx req wait :: todo) l false) : idx < n ∧ Inv n w base last
      { s.push idx ⟨req, if wait then .apply else .nobody⟩ with apply := .running todo l wait } := by
  obtain ⟨⟨sent, hflow, hasks, htask⟩, hbuilt⟩ := h
  rw [Task, happly] at htask
  obtain ⟨hsent, hlast, hsane, hdone⟩ := htask
  obtain ⟨hidx, hreq⟩ : idx < n ∧ req.NoExpiry := hsane _ mem_cons_self
  have hflow' := hflow.push_sent (i := idx) (m := ⟨req, if wait then .apply else .nobody⟩) hreq
  have hasks' := hasks.send (i := idx) (m := ⟨req, if wait then .apply else .nobody⟩) hdone
    (fun b => by cases wait <;> simp) (update sent idx (sent idx ++ [req]))
  refine ⟨hidx, ⟨_, { hflow' with },
    { hasks' with }, fun i => ?_, hlast,
    fun x hx => hsane x (mem_cons_of_mem _ hx), hdone⟩, hbuilt⟩
  change messagesTo n i s.entries = _
  rw [hsent i]
  by_cases hi : i = idx
  · subst hi
    have hto : Instr.to i (.send i req wait : Instr K V M) = some req := if_pos rfl
    rw [update_self, append_assoc, filterMap_cons_some hto]
    rfl
  · rw [update_of_ne hi, filterMap_cons_none (by simp [Instr.to, Ne.symm hi])]

theorem Inv.runInstr {instr : Instr K V M} (happly : s.apply = .running (instr :: todo) l false)
    (hthere : ∀ a, instr = .elsewhere a → s.gone a = false) :
    Inv n w base last (s.run n instr todo l) := by
  cases instr with
  | entry logId => exact h.goOn happly (fun _ => rfl) rfl s.lastMembership
  | send idx req wait =>
    obtain ⟨hidx, h'⟩ := h.send happly
    rw [System.run, if_pos hidx]
    exact h'
  | elsewhere a =>
    rw [System.run, hthere a rfl]
    exact h.goOn happly (fun _ => rfl) rfl s.lastMembership
  | membership logId mem => exact h.goOn happly (fun _ => rfl) rfl (some logId, mem)
  | unreachable =>
    obtain ⟨⟨sent, -, -, htask⟩, -⟩ := h
    rw [Task, happly] at htask
    exact (htask.2.2.1 _ mem_cons_self).elim

end

/-! ## The moves of the builds -/

section

omit [DecidableEq K]

theorem Task.idle (h : Task n last sent s) {waiting : Bool}
    (hb : s.builders[b]? = some (Builder.building caches waiting)) : s.apply = .idle := by
  unfold Task at h
  cases happly : s.apply with
  | idle => rfl
  | running todo l waiting =>
    rw [happly] at h
    exact absurd hb (not_building h.2.2.2)
  | panicked =>
    rw [happly] at h
    exact h.elim

theorem Task.of_idle {s' : System K V M} (h : Task n last sent s) (hidle : s.apply = .idle)
    (hidle' : s'.apply = .idle) (hentries : s'.entries = s.entries)
    (hlast : s'.lastAppliedLogId = s.lastAppliedLogId) : Task n last sent s' := by
  rw [Task, hidle] at h
  rw [Task, hidle', hentries, hlast]
  exact h

theorem getElem?_set_cases {builders : List (Builder K V)} {b' : ℕ} {x y : Builder K V}
    (h : (builders.set b x)[b']? = some y) : b' = b ∧ y = x ∨ b' ≠ b ∧ builders[b']? = some y := by
  by_cases hb : b' = b
  · subst hb
    rw [getElem?_set] at h
    simp only [if_true] at h
    split_ifs at h
    · exact .inl ⟨rfl, (some.inj h).symm⟩
  · rw [getElem?_set_ne (Ne.symm hb)] at h
    exact .inr ⟨hb, h⟩

theorem getElem?_set_of_some {builders : List (Builder K V)} {x y : Builder K V}
    (h : builders[b]? = some y) : (builders.set b x)[b]? = some x := by
  obtain ⟨hlt, -⟩ := List.getElem?_eq_some_iff.mp h
  exact List.getElem?_set_self hlt

end

theorem Inv.startBuild (h : Inv n w base last s) (hnot : ∀ todo l waiting,
    s.apply ≠ .running todo l waiting) :
    Inv n w base last { s with builders := s.builders ++ [.building [] false] } := by
  obtain ⟨⟨sent, hflow, hasks, htask⟩, hbuilt⟩ := h
  have hidle : s.apply = .idle := by
    cases happly : s.apply with
    | idle => rfl
    | running todo l waiting => exact absurd happly (hnot todo l waiting)
    | panicked =>
      rw [Task, happly] at htask
      exact htask.elim
  refine ⟨⟨sent, { hflow with }, ⟨hasks.order, fun i m hm b hb => ?_,
    fun b caches waiting hb => ?_⟩, htask.of_idle hidle hidle rfl rfl⟩, hbuilt⟩
  · obtain ⟨hreq, hi, caches, hb', hlen⟩ := hasks.asked i m hm b hb
    obtain ⟨hlt, -⟩ := List.getElem?_eq_some_iff.mp hb'
    exact ⟨hreq, hi, caches, (List.getElem?_append_left hlt).trans hb', hlen⟩
  · rw [getElem?_append] at hb
    split_ifs at hb
    · exact hasks.found b caches waiting hb
    · obtain heq := mem_singleton.mp (mem_of_getElem? hb)
      cases heq
      exact ⟨Nat.zero_le n, rfl⟩

section

variable (h : Inv n w base last s) (hb : s.builders[b]? = some (Builder.building caches false))
include h hb

theorem Inv.askBuild (hlen : caches.length < n) :
    Inv n w base last { s.push caches.length ⟨.snapshotBuild, .builder b⟩ with
      builders := s.builders.set b (.building caches true) } := by
  obtain ⟨⟨sent, hflow, hasks, htask⟩, hbuilt⟩ := h
  have hidle := htask.idle hb
  -- the messages that are on the way belong to other builds
  have hother : ∀ i, ∀ m ∈ s.channels i, m.replyTo ≠ .builder b := by
    intro i m hm heq
    obtain ⟨-, -, caches', hb', -⟩ := hasks.asked i m hm b heq
    rw [hb] at hb'
    cases hb'
  have hset : Asks n w base sent { s with builders := s.builders.set b (.building caches true) } := by
    refine ⟨hasks.order, fun i m hm b' hb' => ?_, fun b' caches' waiting hb' => ?_⟩
    · obtain ⟨hreq, hi, caches', hb'', hlen'⟩ := hasks.asked i m hm b' hb'
      have hne : b ≠ b' := fun heq => hother i m hm (heq ▸ hb')
      exact ⟨hreq, hi, caches', (getElem?_set_ne hne).trans hb'', hlen'⟩
    · rcases getElem?_set_cases hb' with ⟨rfl, heq⟩ | ⟨-, hb''⟩
      · cases heq
        exact hasks.found _ _ _ hb
      · exact hasks.found _ _ _ hb''
  have hflow' := hflow.push_read (i := caches.length) (m := ⟨.snapshotBuild, .builder b⟩) trivial rfl
  have hasks' := hset.push (i := caches.length) (m := ⟨.snapshotBuild, .builder b⟩)
    (fun m' hm' b' hb' => ⟨rfl, fun heq => hother _ m' hm' (by rw [hb', ← heq])⟩)
    (fun b' hb' => by
      cases hb'
      exact ⟨rfl, hlen, caches, getElem?_set_of_some hb, rfl⟩)
  exact ⟨⟨sent, { hflow' with },
    { hasks' with }, htask.of_idle hidle hidle rfl rfl⟩, hbuilt⟩

/-- A build ends, with or without a snapshot. -/
theorem Inv.endBuild {snapshots : List (SnapshotMeta (Option LogId × M) × List (CacheSnapshot K V))}
    (hnew : ∀ snapshot ∈ snapshots, ∃ es, es <+: s.entries ∧ SnapshotOf n w base last es snapshot) :
    Inv n w base last { s with builders := s.builders.set b .done, snapshots := snapshots } := by
  obtain ⟨⟨sent, hflow, hasks, htask⟩, -⟩ := h
  have hidle := htask.idle hb
  refine ⟨⟨sent, { hflow with }, ⟨hasks.order, fun i m hm b' hb' => ?_,
    fun b' caches' waiting hb' => ?_⟩, htask.of_idle hidle hidle rfl rfl⟩, hnew⟩
  · obtain ⟨hreq, hi, caches', hb'', hlen'⟩ := hasks.asked i m hm b' hb'
    refine ⟨hreq, hi, caches', ?_, hlen'⟩
    have hne : b ≠ b' := by
      rintro rfl
      rw [hb] at hb''
      cases hb''
    exact (getElem?_set_ne hne).trans hb''
  · rcases getElem?_set_cases hb' with ⟨rfl, heq⟩ | ⟨-, hb''⟩
    · cases heq
    · exact hasks.found _ _ _ hb''

theorem Inv.snapshotOf (hlen : ¬ caches.length < n) :
    SnapshotOf n w base last s.entries (⟨s.lastAppliedLogId, s.lastMembership⟩, caches) := by
  obtain ⟨⟨sent, -, hasks, htask⟩, -⟩ := h
  have hidle := htask.idle hb
  rw [Task, hidle] at htask
  obtain ⟨hle, hcaches⟩ := hasks.found b caches false hb
  have hn : caches.length = n := le_antisymm hle (not_lt.mp hlen)
  have hsent : (fun i => messagesTo n i s.entries) = sent := funext htask.1
  refine ⟨htask.2, ?_⟩
  rw [hsent, ← hn]
  exact hcaches

end

/-! ## The moves of the handlers -/

section Handle

variable {i : ℕ} {m : Message K V} {rest : List (Message K V)} {reply : Option (Reply K V)}
  {c : KvHandler K V}

def System.take (i : ℕ) (rest : List (Message K V)) (c : KvHandler K V) (s : System K V M) :
    System K V M :=
  { s with
    caches := update s.caches i c
    channels := update s.channels i rest }

omit [DecidableEq K] in
@[simp] theorem take_caches_self : (s.take i rest c).caches i = c := update_self ..

omit [DecidableEq K] in
@[simp] theorem take_channels_self : (s.take i rest c).channels i = rest := update_self ..

variable {j : ℕ}

section

omit [DecidableEq K]

theorem take_caches_ne (hj : j ≠ i) : (s.take i rest c).caches j = s.caches j :=
  update_of_ne hj ..

theorem take_channels_ne (hj : j ≠ i) : (s.take i rest c).channels j = s.channels j :=
  update_of_ne hj ..

theorem mem_take (hch : s.channels i = m :: rest) {m' : Message K V}
    (hm' : m' ∈ (s.take i rest c).channels j) : m' ∈ s.channels j := by
  by_cases hj : j = i
  · subst hj
    rw [take_channels_self] at hm'
    rw [hch]
    exact mem_cons_of_mem _ hm'
  · rwa [take_channels_ne hj] at hm'

end

theorem Flow.served (h : Flow w base sent s) (hch : s.channels i = m :: rest) {it : Iteration K V}
    (hiter : iteration (w i) (some m.req) (s.caches i) = (.ok it, c)) :
    ∃ reply, it = .served reply ∧ Flow w base sent (s.take i rest c) ∧
      (m.req = .snapshotBuild → reply = some (.snapshot c.contents)) := by
  have hplain : ∀ m' ∈ s.channels i, m'.req.NoExpiry := h.plain i
  rw [hch] at hplain
  obtain ⟨reply, c', hprocess, hc', hread, hbuild⟩ :=
    process_noExpiry (w := w i) (h.calm i) (hplain m mem_cons_self)
  rw [(h.calm i).iteration, select, Exec.bind_ok hprocess] at hiter
  cases hiter
  refine ⟨reply, rfl, ⟨fun j => ?_, fun j m' hm' => h.plain j m' (mem_take hch hm'), fun j => ?_⟩,
    fun heq => ?_⟩
  · by_cases hj : j = i
    · subst hj
      rw [take_caches_self]
      exact hc'
    · rw [take_caches_ne hj]
      exact h.calm j
  · rw [← h.drained j]
    by_cases hj : j = i
    · subst hj
      rw [take_caches_self, take_channels_self, hch, map_cons, replay, replay, foldl_cons,
        hprocess]
    · rw [take_caches_ne hj, take_channels_ne hj]
  · rw [hbuild heq, hread (by rw [heq]; rfl)]
    rfl

theorem pairwise_take (h : Asks n w base sent s) (hch : s.channels i = m :: rest) (j : ℕ) :
    ((s.take i rest c).channels j).Pairwise Follows := by
  have hj := h.order j
  by_cases heq : j = i
  · subst heq
    rw [hch] at hj
    rw [take_channels_self]
    exact (pairwise_cons.mp hj).2
  · rw [take_channels_ne heq]
    exact hj

theorem Asks.take (h : Asks n w base sent s) (hch : s.channels i = m :: rest) :
    Asks n w base sent (s.take i rest c) :=
  ⟨pairwise_take h hch, fun j m' hm' => h.asked j m' (mem_take hch hm'), h.found⟩

/-- **A build gets what was sent**: nothing behind its message changes the cache. -/
theorem Asks.deliver (h : Asks n w base sent s) (hflow : Flow w base sent (s.take i rest c))
    (hch : s.channels i = m :: rest) {b : ℕ} (hb : m.replyTo = .builder b)
    {caches : List (CacheSnapshot K V)}
    (hbuilder : s.builders[b]? = some (Builder.building caches true)) (hlen : caches.length = i)
    (hi : i < n) : Asks n w base sent { s.take i rest c with
      builders := s.builders.set b (.building (caches ++ [c.contents]) false) } := by
  have hbehind : ∀ m' ∈ rest, m'.req.reads = true ∧ m'.replyTo ≠ .builder b := by
    have horder := h.order i
    rw [hch] at horder
    exact fun m' hm' => (pairwise_cons.mp horder).1 m' hm' b hb
  -- so the cache has what was sent already
  have hcut : c.contents = cut w base sent i := by
    have hdrained := hflow.drained i
    rw [take_caches_self, take_channels_self, replay_reads] at hdrained
    · rw [hdrained, cut]
    · have hcalm := hflow.calm i
      rwa [take_caches_self] at hcalm
    · intro req hreq
      obtain ⟨m', hm', rfl⟩ := mem_map.mp hreq
      exact hflow.plain i m' (by rwa [take_channels_self])
    · intro req hreq
      obtain ⟨m', hm', rfl⟩ := mem_map.mp hreq
      exact (hbehind m' hm').1
  refine ⟨pairwise_take (c := c) h hch, fun j m' hm' b' hb' => ?_, fun b' caches' waiting hb' => ?_⟩
  · obtain ⟨hreq, hj, caches', hb'', hlen'⟩ := h.asked j m' (mem_take (c := c) hch hm') b' hb'
    refine ⟨hreq, hj, caches', ?_, hlen'⟩
    have hne : b ≠ b' := by
      rintro rfl
      rw [hbuilder] at hb''
      cases hb''
      obtain rfl : j = i := hlen'.symm.trans hlen
      have hrest : m' ∈ (s.take j rest c).channels j := hm'
      rw [take_channels_self] at hrest
      exact (hbehind m' hrest).2 hb'
    exact (getElem?_set_ne hne).trans hb''
  · rcases getElem?_set_cases hb' with ⟨rfl, heq⟩ | ⟨-, hb''⟩
    · cases heq
      obtain ⟨-, hcaches⟩ := h.found _ _ _ hbuilder
      refine ⟨by simpa [hlen] using hi, ?_⟩
      rw [length_append, length_singleton, range_succ, map_append, ← hcaches,
        map_singleton, hlen, hcut]
    · exact h.found _ _ _ hb''

theorem Inv.handle (h : Inv n w base last s) (hch : s.channels i = m :: rest) {it : Iteration K V}
    (hiter : iteration (w i) (some m.req) (s.caches i) = (.ok it, c)) :
    ∃ reply, it = .served reply ∧
      Inv n w base last (System.deliver reply m.replyTo (s.take i rest c)) := by
  obtain ⟨⟨sent, hflow, hasks, htask⟩, hbuilt⟩ := h
  obtain ⟨reply, hit, hflow', hbuild⟩ := hflow.served hch hiter
  have hasks' : Asks n w base sent (s.take i rest c) := hasks.take hch
  refine ⟨reply, hit, ?_⟩
  cases hto : m.replyTo with
  | nobody => exact ⟨⟨sent, hflow', hasks', htask⟩, hbuilt⟩
  | apply =>
    cases happly : s.apply with
    | running todo l waiting =>
      have htask' : Task n last sent { s.take i rest c with apply := .running todo l false } := by
        rw [Task, happly] at htask
        exact htask
      have hdeliver : System.deliver reply .apply (s.take i rest c) =
          { s.take i rest c with apply := .running todo l false } := by
        simp only [System.deliver, System.take, happly]
      rw [hdeliver]
      exact ⟨⟨sent, { hflow' with },
        { hasks' with }, htask'⟩, hbuilt⟩
    | _ =>
      have hdeliver : System.deliver reply .apply (s.take i rest c) = s.take i rest c := by
        simp only [System.deliver, System.take, happly]
      rw [hdeliver]
      exact ⟨⟨sent, hflow', hasks', htask⟩, hbuilt⟩
  | builder b =>
    obtain ⟨hreq, hi, caches, hbuilder, hlen⟩ :=
      hasks.asked i m (by rw [hch]; exact mem_cons_self) b hto
    have hdeliver : System.deliver reply (.builder b) (s.take i rest c) = { s.take i rest c with
        builders := s.builders.set b (.building (caches ++ [c.contents]) false) } := by
      simp only [System.deliver, System.take, hbuilder, hbuild hreq]
    have hasks'' := hasks.deliver hflow' hch hto hbuilder hlen hi
    have hidle := htask.idle hbuilder
    rw [hdeliver]
    exact ⟨⟨sent, { hflow' with }, hasks'',
      htask.of_idle hidle hidle rfl rfl⟩, hbuilt⟩

theorem Inv.ask (h : Inv n w base last s) {req : CacheRequestHandler K V} (hreq : req.reads = true) :
    Inv n w base last (s.push i ⟨req, .nobody⟩) := by
  obtain ⟨⟨sent, hflow, hasks, htask⟩, hbuilt⟩ := h
  have hplain : req.NoExpiry := by cases req <;> trivial
  refine ⟨⟨sent, hflow.push_read hplain hreq, hasks.push (fun m' _ b _ => ⟨hreq, fun heq => ?_⟩)
    fun b hb => ?_, htask⟩, hbuilt⟩
  · cases heq
  · cases hb

end Handle

/-! ## Runs -/

/-- No batch is empty, no entry panics or stores an expiry, and a handler that `apply` asks is there.
-/
def Move.Sane (n : ℕ) (s : System K V M) : Move K V M → Prop
  | .startBatch es => es ≠ [] ∧ ∀ e ∈ es, e.Sane n
  | .apply => ∀ a todo l, s.apply = .running (.elsewhere a :: todo) l false → s.gone a = false
  | _ => True

theorem Inv.step (h : Inv n w base last s) {m : Move K V M} {s' : System K V M} (hsane : m.Sane n s)
    (hstep : System.Step n w s m s') : Inv n w base last s' := by
  unfold System.Step at hstep
  cases m with
  | startBatch es =>
    rw [System.step] at hstep
    split at hstep
    · rename_i hidle
      split_ifs at hstep with hdone
      cases hstep
      exact h.startBatch hidle hdone hsane.1 hsane.2
    · cases hstep
  | apply =>
    rw [System.step] at hstep
    split at hstep
    · rename_i happly
      cases hstep
      exact h.endBatch happly
    · rename_i happly
      cases hstep
      exact h.runInstr happly fun a heq => hsane a _ _ (heq ▸ happly)
    · cases hstep
  | startBuild =>
    rw [System.step] at hstep
    split at hstep
    · cases hstep
    · rename_i hnot
      cases hstep
      exact h.startBuild hnot
  | build b =>
    rw [System.step] at hstep
    split at hstep
    · rename_i caches hb
      split_ifs at hstep with hlen hgone
      · cases hstep
        exact h.askBuild hb hlen
      · cases hstep
        exact h.endBuild hb h.built
      · cases hstep
        refine h.endBuild hb fun snapshot hsnap => ?_
        rcases mem_append.mp hsnap with hold | hnew
        · exact h.built snapshot hold
        · rw [mem_singleton.mp hnew]
          exact ⟨s.entries, prefix_refl _, h.snapshotOf hb hlen⟩
    · cases hstep
  | handle i =>
    rw [System.step] at hstep
    split at hstep
    · cases hstep
    · rename_i m rest hch
      split at hstep
      · rename_i reply c hiter
        obtain ⟨reply', heq, h'⟩ := h.handle hch hiter
        cases heq
        cases hstep
        exact h'
      · rename_i it c hnot hiter
        obtain ⟨reply', rfl, -⟩ := h.handle hch hiter
        exact absurd rfl (hnot reply')
      · cases hstep
  | ask i req =>
    rw [System.step] at hstep
    split_ifs at hstep with hreq
    cases hstep
    exact h.ask hreq
  | stop a =>
    cases hstep
    obtain ⟨⟨sent, hflow, hasks, htask⟩, hbuilt⟩ := h
    exact ⟨⟨sent, { hflow with }, { hasks with },
      htask⟩, hbuilt⟩

theorem Inv.start (hbase : ∀ i, (base i).NoExpiry) (mem : Option LogId × M) :
    Inv n w base last (.start base last mem) :=
  ⟨⟨fun _ => [], ⟨hbase, fun _ _ h => (nomatch h), fun _ => rfl⟩,
    ⟨fun _ => Pairwise.nil, fun _ _ h => (nomatch h), fun _ _ _ h => (nomatch h)⟩,
    fun _ => rfl, rfl⟩, fun _ h => (nomatch h)⟩

/-- The entries are in the order of one log, after the id `last`. -/
def InOrder (last : Option LogId) (es : List (Entry K V M)) : Prop :=
  es.Pairwise (fun e e' => e.logId.index < e'.logId.index) ∧
    ∀ e ∈ es, ¬ Precedes (some e.logId) last

/-- The entries with an id at most `id`. -/
def upTo (id : Option LogId) (es : List (Entry K V M)) : List (Entry K V M) :=
  es.filter fun e => decide (Precedes (some e.logId) id)

omit [DecidableEq K] in
theorem upTo_lastOf {es es' : List (Entry K V M)} (h : InOrder last (es ++ es')) :
    upTo (lastOf last es) (es ++ es') = es := by
  obtain ⟨hpair, hafter⟩ := h
  obtain ⟨hes, -, hacross⟩ := pairwise_append.mp hpair
  rcases eq_nil_or_concat es with rfl | ⟨init, e, rfl⟩
  · -- no entry is before the start
    exact filter_eq_nil_iff.mpr fun e he hp => hafter e he (of_decide_eq_true hp)
  · have hlast : lastOf last (init.concat e) = some e.logId := by simp [lastOf]
    rw [hlast, upTo, filter_append, filter_eq_self.mpr, filter_eq_nil_iff.mpr,
      append_nil]
    · intro x hx hp
      have hlt : e.logId.index < x.logId.index := hacross e (by simp) x hx
      have hprecedes : x.logId = e.logId ∨ x.logId.index < e.logId.index := of_decide_eq_true hp
      rcases hprecedes with heq | hgt
      · rw [heq] at hlt
        exact lt_irrefl _ hlt
      · exact lt_asymm hlt hgt
    · intro x hx
      rw [concat_eq_append, pairwise_append] at hes
      rw [concat_eq_append, mem_append, mem_singleton] at hx
      refine decide_eq_true (p := Precedes (some x.logId) (some e.logId)) ?_
      rcases hx with hx | rfl
      · exact .inr (hes.2.2 x hx e (mem_singleton.mpr rfl))
      · exact .inl rfl

/-- What a snapshot has to contain, if it is cut at its log id. -/
def Cut (n : ℕ) (w : ℕ → World) (base : ℕ → KvHandler K V) (es : List (Entry K V M))
    (snapshot : SnapshotMeta (Option LogId × M) × List (CacheSnapshot K V)) : Prop :=
  snapshot.2 = (range n).map fun i =>
    (replay (w i) (base i) (messagesTo n i (upTo snapshot.1.lastLogId es))).contents

/-- **A snapshot is cut exactly at its log id**: in every cache it has the effects of exactly the
entries with an id at most its own. -/
theorem snapshot_cut (n : ℕ) (w : ℕ → World) (base : ℕ → KvHandler K V) (last : Option LogId)
    (mem : Option LogId × M) (hbase : ∀ i, (base i).NoExpiry) (ms : List (Move K V M))
    (s : System K V M) (hrun : Path (fun s m s' => m.Sane n s ∧ s.step n w m = some s')
      (.start base last mem) ms s) (horder : InOrder last s.entries) :
    ∀ snapshot ∈ s.snapshots, Cut n w base s.entries snapshot := by
  have hinv : Inv n w base last s := hrun.invariant (I := fun _ => Inv n w base last)
    (Inv.start hbase mem) fun _ _ _ _ ih hstep => ih.step hstep.1 hstep.2
  intro snapshot hsnap
  obtain ⟨es, ⟨es', hes⟩, hid, hcaches⟩ := hinv.built snapshot hsnap
  rw [Cut, hcaches, hid, ← hes, upTo_lastOf (hes ▸ horder)]
  rfl

/-! ## Runs of two nodes -/

section Decide

omit [DecidableEq K]

instance : DecidablePred (CacheRequestHandler.NoExpiry : CacheRequestHandler K V → Prop)
  | .put _ _ expires | .replace _ _ expires => inferInstanceAs (Decidable (expires = none))
  | .snapshotInstall _ => .isFalse id
  | .get _ | .getRemove _ | .delete _ | .clear | .clearCounters | .snapshotBuildCacheOnly
  | .snapshotBuild | .counterGet _ | .counterSet _ _ | .counterAdd _ _ | .counterDel _ => .isTrue trivial

instance (n : ℕ) : DecidablePred (Instr.Sane n : Instr K V M → Prop)
  | .send idx req _ => inferInstanceAs (Decidable (idx < n ∧ req.NoExpiry))
  | .unreachable => .isFalse id
  | .entry _ | .elsewhere _ | .membership _ _ => .isTrue trivial

instance (n : ℕ) (e : Entry K V M) : Decidable (e.Sane n) :=
  inferInstanceAs (Decidable (∀ instr ∈ e.instrs n, instr.Sane n))

instance (last : Option LogId) (es : List (Entry K V M)) : Decidable (InOrder last es) :=
  inferInstanceAs (Decidable (_ ∧ _))

def Move.isSane (n : ℕ) (s : System K V M) : Move K V M → Bool
  | .startBatch es => !es.isEmpty && decide (∀ e ∈ es, e.Sane n)
  | .apply => match s.apply with
    | .running (.elsewhere a :: _) _ false => !s.gone a
    | _ => true
  | _ => true

theorem Move.sane_of_isSane {m : Move K V M} (h : m.isSane n s = true) : m.Sane n s := by
  cases m with
  | startBatch es =>
    obtain ⟨hne, hall⟩ := Bool.and_eq_true_iff.mp h
    exact ⟨by simpa using hne, of_decide_eq_true hall⟩
  | apply =>
    intro a todo l happly
    simpa [Move.isSane, happly] using h
  | _ => trivial

end Decide

def still : ℕ → World := fun _ => ⟨false, fun _ => 0⟩

def emptyNode : System ℕ ℕ Unit := .start (fun _ => .spawn) none (none, ())

def idOf (i : ℕ) : LogId := ⟨⟨1, 1⟩, i⟩

/-- The first entry of a log: the value 5 is put into the first cache. -/
def putFive : Entry ℕ ℕ Unit := ⟨idOf 1, .normal (.put 0 1 5 none)⟩

/-- A batch of three entries and one of two on a node with two caches, with reads and two builds at a
time in between, and a third build after them. -/
def threeBuilds : List (Move ℕ ℕ Unit) :=
  [.startBatch [putFive, ⟨idOf 2, .normal (.put 1 2 6 none)⟩, ⟨idOf 3, .normal (.lock 7 none)⟩],
    .apply, .apply, .apply, .ask 0 (.get 1), .apply, .apply, .apply, .apply,
    .startBuild, .build 0, .ask 0 (.get 1), .startBuild, .handle 0, .build 1, .handle 0, .handle 0,
    .build 0, .handle 1, .handle 1, .build 0, .handle 0, .handle 0, .build 1, .handle 1, .build 1,
    .startBatch [⟨idOf 4, .normal (.put 0 1 7 none)⟩, ⟨idOf 5, .normal (.counterAdd 1 3 2)⟩],
    .apply, .apply, .apply, .apply, .stop .notifications, .handle 1, .apply,
    .startBuild, .build 2, .handle 0, .handle 0, .build 2, .handle 1, .build 2]

def saneStep (n : ℕ) (s : System ℕ ℕ Unit) (m : Move ℕ ℕ Unit) : Option (System ℕ ℕ Unit) :=
  if m.isSane n s then s.step n still m else none

/-- The id of each snapshot and what its caches have under the keys 1 and 2 and the counter 3. -/
def shown (s : System ℕ ℕ Unit) : List (Option ℕ × List (List (Option ℕ))) :=
  s.snapshots.map fun x => (x.1.lastLogId.map LogId.index, x.2.map fun c =>
    [(c.values.lookup 1).map Prod.fst, (c.values.lookup 2).map Prod.fst,
      (c.counters.lookup 3).map Int.toNat])

theorem snapshot_cut_run : ∃ s : System ℕ ℕ Unit,
    threeBuilds.foldlM (saneStep 2) emptyNode = some s ∧ shown s =
      [(some 3, [[some 5, none, none], [none, some 6, none]]),
        (some 3, [[some 5, none, none], [none, some 6, none]]),
        (some 5, [[some 7, none, none], [none, some 6, some 2]])] ∧
    ∀ snapshot ∈ s.snapshots, Cut 2 still (fun _ => .spawn) s.entries snapshot := by
  have hend : (threeBuilds.foldlM (saneStep 2) emptyNode).map shown = some
      [(some 3, [[some 5, none, none], [none, some 6, none]]),
        (some 3, [[some 5, none, none], [none, some 6, none]]),
        (some 5, [[some 7, none, none], [none, some 6, some 2]])] := by decide +kernel
  have horder : ∀ s ∈ threeBuilds.foldlM (saneStep 2) emptyNode, InOrder none s.entries := by
    decide +kernel
  obtain ⟨s, hs, hshown⟩ := map_eq_some_iff.mp hend
  exact ⟨s, hs, hshown, snapshot_cut 2 still (fun _ => .spawn) none (none, ())
    (fun _ => spawn_noExpiry) threeBuilds s ((Path.of_foldlM_if hs).mono fun _ _ _ h =>
      ⟨Move.sane_of_isSane h.1, h.2⟩) (horder s hs)⟩

/-- The value is put, and an empty batch follows. -/
def emptyBatch : List (Move ℕ ℕ Unit) :=
  [.startBatch [putFive], .apply, .apply, .apply, .handle 0, .startBatch [], .apply,
    .startBuild, .build 0, .handle 0, .build 0]

/-- The next entry of the batch is for a cache that this node does not have. -/
def halfBatch : List (Move ℕ ℕ Unit) :=
  [.startBatch [putFive, ⟨idOf 2, .normal (.put 1 2 6 none)⟩], .apply, .apply, .apply, .apply,
    .startBuild, .build 0, .handle 0, .handle 0, .build 0]

/-- The run `ms` leads to a snapshot without a log id that is not cut there. -/
def Uncut (ms : List (Move ℕ ℕ Unit)) : Prop := ∃ s : System ℕ ℕ Unit,
  Path (System.Step 1 still) emptyNode ms s ∧ InOrder none s.entries ∧
    ∃ snapshot ∈ s.snapshots, snapshot.1.lastLogId = none ∧
      ¬ Cut 1 still (fun _ => .spawn) s.entries snapshot

theorem uncut_of_shown {ms : List (Move ℕ ℕ Unit)}
    (hend : (ms.foldlM (System.step 1 still) emptyNode).map shown =
      some [(none, [[some 5, none, none]])])
    (horder : ∀ s ∈ ms.foldlM (System.step 1 still) emptyNode, InOrder none s.entries) :
    Uncut ms := by
  obtain ⟨s, hs, hshown⟩ := map_eq_some_iff.mp hend
  obtain ⟨snapshot, hsnap, hx⟩ := map_eq_singleton_iff.mp hshown
  obtain ⟨hid, hvalues⟩ := Prod.mk.inj hx
  refine ⟨s, Path.of_foldlM hs, horder s hs, snapshot, by simp [hsnap],
    map_eq_none_iff.mp hid, fun hcut => ?_⟩
  -- without an id, the snapshot ought to be empty
  have hnone : upTo none s.entries = [] := filter_eq_nil_iff.mpr fun e _ h => of_decide_eq_true h
  rw [hcut, map_eq_none_iff.mp hid, hnone] at hvalues
  cases hvalues

/-- **Snapshots that are not cut at their log id.** An empty batch takes the last id away, and a
batch that panics half-way leaves the old one. The snapshot after it has the value of the first
entry, and no log id. -/
theorem snapshot_without_id : Uncut emptyBatch ∧ Uncut halfBatch :=
  ⟨uncut_of_shown (by decide +kernel) (by decide +kernel),
    uncut_of_shown (by decide +kernel) (by decide +kernel)⟩

end Hiqlite.Cache
