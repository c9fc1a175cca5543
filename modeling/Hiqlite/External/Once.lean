import Hiqlite.External.Window
import Hiqlite.Lib.Path

/-!
# G7 — every sequence is applied once

An engine that is called, shut down and opened again, in any order and with any commits. Operations
change the tables of the application at once or fail without effect.

* `Tracks.step`: one call; **`each_sequence_once`**.
-/

namespace Hiqlite.External

open List Option

variable {A C Out E : Type} [DecidableEq C]

inductive Node (A C : Type)
  | running (w : Writer A C)
  | stopped (db : Db A)
  /-- The writer has stopped itself, and the projection must be rebuilt. -/
  | poisoned (db : Db A)

inductive Call (A C E Out : Type)
  | apply (faults : Faults) (commit : ExternalCommit C) (f : A → Except E (A × Out))
  | advance (faults : Faults) (commit : ExternalCommit C)
  | shutdown
  | start (options : ExternalSqliteOptions)

inductive Answer (E Out : Type)
  | apply (r : Except (ExternalApplyError E) (ApplyOutcome Out))
  | advance (r : Except ExternalError (ApplyOutcome Unit))
  | done (r : Except ExternalError Unit)

namespace Node

def db : Node A C → Db A
  | .running w => w.conn.file
  | .stopped db => db
  | .poisoned db => db

def after (poison : Option ExternalError) (w : Writer A C) : Node A C :=
  if poison.isSome then .poisoned w.conn.file else .running w

def step (k : Codec C Out) : Node A C → Call A C E Out → Answer E Out × Node A C
  | .running w, .apply faults commit f =>
    let r := applyCommitted k faults commit (.atomic f) w
    (.apply r.result, after r.poison r.writer)
  | .running w, .advance faults commit =>
    let r := advanceCommitted k faults commit w
    (.advance r.result, after r.poison r.writer)
  | .running w, .shutdown => (.done (.ok ()), .stopped w.conn.file)
  | .running w, .start _ => (.done (.error (.locked "owner.lock")), .running w)
  | .stopped db, .start options =>
    match options.validate >>= fun _ => openWriter k options db with
    | .ok w => (.done (.ok ()), .running w)
    | .error e => (.done (.error e), .stopped db)
  | .poisoned db, .start _ => (.done (.error (.rebuildRequired "dirty")), .poisoned db)
  | n, .apply _ _ _ => (.apply (.error (.engine .writerClosed)), n)
  | n, .advance _ _ => (.advance (.error .writerClosed), n)
  | n, .shutdown => (.done (.error .writerClosed), n)

end Node

/-! ## What was applied -/

/-- A call that was applied, and with an operation also what it did and returned. -/
structure Accepted (A C E Out : Type) where
  commit : ExternalCommit C
  work : Option ((A → Except E (A × Out)) × Out)

def Accepted.Step (a : A) (x : Accepted A C E Out) (b : A) : Prop :=
  match x.work with
  | some (f, out) => f a = .ok (b, out)
  | none => b = a

def accepted : Call A C E Out × Answer E Out → Option (Accepted A C E Out)
  | (.apply _ commit f, .apply (.ok (.applied out))) => some ⟨commit, some (f, out)⟩
  | (.advance _ commit, .advance (.ok (.applied _))) => some ⟨commit, none⟩
  | _ => none

def EntryOf {k : Codec C Out} (e : Entry k) (x : Accepted A C E Out) : Prop :=
  e.commit = x.commit ∧ e.output = x.work.map Prod.snd

/-- **The tables of an engine record the calls that were applied.** -/
structure Tracks (k : Codec C Out) (o : ExternalSqliteOptions) (a0 : A)
    (acc : List (Accepted A C E Out)) (h : List (Entry k)) (state : StoredState C) (n : Node A C) :
    Prop where
  exact_ : Exact o h n.db state
  node : n = .running ⟨⟨n.db, none⟩, state⟩ ∨ n = .stopped n.db
  entries : Forall₂ EntryOf h acc
  composed : Path Accepted.Step a0 acc n.db.app

variable {k : Codec C Out} {o : ExternalSqliteOptions} {a0 : A} {acc : List (Accepted A C E Out)}
  {h : List (Entry k)} {state : StoredState C} {n n' : Node A C} {c : Call A C E Out}
  {a : Answer E Out} {db : Db A} {faults : Faults} {commit : ExternalCommit C}
  {f : A → Except E (A × Out)}

omit [DecidableEq C] in
theorem atomic_kept (f : A → Except E (A × Out)) (db : Db A) :
    ∃ app, ((Operation.atomic f).apply ⟨db, some db⟩).2 = ⟨db, some { db with app := app }⟩ ∧
      ∀ out, ((Operation.atomic f).apply ⟨db, some db⟩).1 = .ok out → f db.app = .ok (app, out) := by
  dsimp only [Operation.atomic, Session.view_open]
  cases hf : f db.app with
  | error e => exact ⟨db.app, rfl, nofun⟩
  | ok p =>
    refine ⟨p.1, rfl, fun out hout => ?_⟩
    cases hout
    rfl

theorem apply_cases (hk : k.Lawful) (hx : Exact o h db state) (faults : Faults)
    (commit : ExternalCommit C) (f : A → Except E (A × Out)) :
    (∃ r, applyCommitted k faults commit (.atomic f) (.idle db state) =
      ⟨r, none, .idle db state⟩ ∧ ∀ out, r ≠ .ok (.applied out)) ∨
    ∃ e out db' state', applyCommitted k faults commit (.atomic f) (.idle db state) =
        ⟨.ok (.applied out), none, .idle db' state'⟩ ∧
      Exact o (h ++ [e]) db' state' ∧ e.commit = commit ∧ e.output = some out ∧
      f db.app = .ok (db'.app, out) := by
  by_cases heq : commit.sequence.toNat = o.initialSequence.toNat + h.length
  swap
  · exact .inl (applyCommitted_other faults _ hk hx heq)
  obtain ⟨app, hkept, hf⟩ := atomic_kept f db
  rcases applyCommitted_kept faults hk hx heq hkept with
    ⟨err, hrun, -⟩ | ⟨e, out, db', state', hst, hout, happ, hrun, hx'⟩
  · exact .inl ⟨_, hrun, nofun⟩
  · obtain ⟨⟨out', hout', hsome⟩, hcommit, -⟩ := hst
    obtain rfl : out = out' := Except.ok.inj (hout.symm.trans hout')
    refine .inr ⟨e, out, db', state', hrun, hx', hcommit, hsome, ?_⟩
    rw [happ]
    exact hf out hout

theorem advance_cases (hk : k.Lawful) (hx : Exact o h db state) (faults : Faults)
    (commit : ExternalCommit C) : (∃ r, advanceCommitted k faults commit (.idle db state) =
      ⟨r, none, .idle db state⟩ ∧ ∀ out, r ≠ .ok (.applied out)) ∨
    ∃ (e : Entry k) (db' : Db A) (state' : StoredState C),
      advanceCommitted k faults commit (.idle db state) =
        ⟨.ok (.applied ()), none, .idle db' state'⟩ ∧
      Exact o (h ++ [e]) db' state' ∧ e.commit = commit ∧ e.output = none ∧ db'.app = db.app := by
  by_cases heq : commit.sequence.toNat = o.initialSequence.toNat + h.length
  swap
  · exact .inl (advanceCommitted_other faults hk hx heq)
  rcases advanceCommitted_new faults hk hx heq with
    ⟨err, hrun, -⟩ | ⟨e, db', state', hcommit, hout, happ, hrun, hx'⟩
  · exact .inl ⟨_, hrun, nofun⟩
  · exact .inr ⟨e, db', state', hrun, hx', hcommit, hout, happ⟩

theorem Tracks.step (hk : k.Lawful) (ht : Tracks k o a0 acc h state n)
    (hstep : n.step k c = (a, n')) :
    ∃ h' state', Tracks k o a0 (acc ++ (accepted (c, a)).toList) h' state' n' := by
  have hx := ht.exact_
  have hstay : accepted (c, a) = none → n' = n → ∃ h' state',
      Tracks k o a0 (acc ++ (accepted (c, a)).toList) h' state' n' := by
    rintro hnone rfl
    rw [hnone, toList_none, append_nil]
    exact ⟨h, state, ht⟩
  have hgrow {e : Entry k} {x : Accepted A C E Out} {db' : Db A} {state' : StoredState C}
      (hx' : Exact o (h ++ [e]) db' state') (hacc : accepted (c, a) = some x) (hex : EntryOf e x)
      (hwork : x.Step n.db.app db'.app) : ∃ h' state'', Tracks k o a0
        (acc ++ (accepted (c, a)).toList) h' state'' (.running (.idle db' state')) := by
    rw [hacc, toList_some]
    exact ⟨h ++ [e], state', hx', .inl rfl, rel_append ht.entries (.cons hex .nil),
      ht.composed.snoc hwork⟩
  rcases ht.node with hn | hn
  · rw [hn] at hstep
    cases c with
    | apply faults commit f =>
      rcases apply_cases hk hx faults commit f with
        ⟨r, hrun, hne⟩ | ⟨e, out, db', state', hrun, hx', hcommit, hout, hf⟩
      · simp only [Node.step, hrun] at hstep
        cases hstep
        refine hstay ?_ hn.symm
        rcases r with err | out | out
        · rfl
        · exact absurd rfl (hne out)
        · rfl
      · simp only [Node.step, hrun] at hstep
        cases hstep
        exact hgrow hx' rfl ⟨hcommit, hout⟩ hf
    | advance faults commit =>
      rcases advance_cases hk hx faults commit with
        ⟨r, hrun, hne⟩ | ⟨e, db', state', hrun, hx', hcommit, hout, happ⟩
      · simp only [Node.step, hrun] at hstep
        cases hstep
        refine hstay ?_ hn.symm
        rcases r with err | out | out
        · rfl
        · exact absurd rfl (hne out)
        · rfl
      · simp only [Node.step, hrun] at hstep
        cases hstep
        exact hgrow hx' rfl ⟨hcommit, hout⟩ happ
    | shutdown =>
      cases hstep
      refine ⟨h, state, ?_⟩
      rw [show accepted _ = none from rfl, toList_none, append_nil]
      exact ⟨hx, .inr rfl, ht.entries, ht.composed⟩
    | start options =>
      cases hstep
      exact hstay rfl hn.symm
  · rw [hn] at hstep
    cases c with
    | apply | advance | shutdown =>
      cases hstep
      exact hstay rfl hn.symm
    | start options =>
      simp only [Node.step] at hstep
      cases hopen : (options.validate >>= fun _ => openWriter k options n.db) with
      | error e =>
        rw [hopen] at hstep
        cases hstep
        exact hstay rfl hn.symm
      | ok w =>
        rw [hopen] at hstep
        cases hstep
        obtain ⟨_, -, hopen⟩ := bind_eq_ok.mp hopen
        obtain ⟨st, hload, -, -, rfl⟩ := openWriter_ok hopen
        obtain rfl : state = st := Except.ok.inj (hx.loads.symm.trans hload)
        refine ⟨h, state, ?_⟩
        rw [show accepted _ = none from rfl, toList_none, append_nil]
        exact ⟨hx, .inl rfl, ht.entries, ht.composed⟩

/-! ## Commits that are not new -/

def retained (o : ExternalSqliteOptions) (acc : List (Accepted A C E Out)) :
    List (Accepted A C E Out) :=
  acc.drop (acc.length - o.receiptRetention.toNat)

def Accepted.kind (x : Accepted A C E Out) : ExternalEntryKind :=
  if x.work.isSome then .operation else .advance

variable {x : Accepted A C E Out}

omit [DecidableEq C] in
theorem EntryOf.kind {e : Entry k} (hex : EntryOf e x) : e.kind = x.kind := by
  rw [Entry.kind, Accepted.kind, hex.2, isSome_map]

theorem forall₂_getElem? {α β : Type} {P : α → β → Prop} {l : List α} {l' : List β} {i : ℕ} {b : β}
    (hl : Forall₂ P l l') (hi : l'[i]? = some b) : ∃ a, l[i]? = some a ∧ P a b := by
  induction hl generalizing i with
  | nil => cases hi
  | @cons a _ _ _ hab _ ih =>
    cases i with
    | zero =>
      cases hi
      exact ⟨a, rfl, hab⟩
    | succ i => exact ih hi

section

omit [DecidableEq C]

variable (ht : Tracks k o a0 acc h state n)
include ht

theorem Tracks.retained_iff : Forall₂ EntryOf (window o h) (retained o acc) := by
  rw [window, retained, ht.entries.length_eq]
  exact forall₂_drop _ ht.entries

theorem Tracks.exists_entry (hmem : x ∈ retained o acc) : ∃ e ∈ window o h, EntryOf e x := by
  obtain ⟨i, hi⟩ := mem_iff_getElem?.mp hmem
  obtain ⟨e, he, hex⟩ := forall₂_getElem? ht.retained_iff hi
  exact ⟨e, mem_iff_getElem?.mpr ⟨i, he⟩, hex⟩

theorem Tracks.exists_accepted {e : Entry k}
    (hmem : e ∈ window o h) : ∃ x ∈ retained o acc, EntryOf e x := by
  obtain ⟨i, hi⟩ := mem_iff_getElem?.mp hmem
  obtain ⟨x, hx, hex⟩ := forall₂_getElem? ht.retained_iff.flip hi
  exact ⟨x, mem_iff_getElem?.mpr ⟨i, hx⟩, hex⟩

theorem Tracks.lt_of_le_last {last : Accepted A C E Out}
    (hlast : last ∈ acc.getLast?) (hle : commit.sequence ≤ last.commit.sequence) :
    commit.sequence.toNat < o.initialSequence.toNat + h.length := by
  rw [mem_def, getLast?_eq_getElem?] at hlast
  obtain ⟨e, he, hcommit, -⟩ := forall₂_getElem? ht.entries hlast
  have hnum := ht.exact_.mem_lt (mem_iff_getElem?.mpr ⟨_, he⟩)
  rw [hcommit] at hnum
  rw [UInt64.le_iff_toNat_le] at hle
  omega

end

section

variable (hk : k.Lawful) (ht : Tracks k o a0 acc h state (.running (.idle db state)))
include hk ht

/-- **An operation that was applied before** is answered from its receipt. -/
theorem Tracks.apply_retained (hmem : x ∈ retained o acc)
    {f' : A → Except E (A × Out)} {out : Out} (hwork : x.work = some (f', out)) (faults : Faults)
    (f : A → Except E (A × Out)) :
    Node.step k (.running (.idle db state)) (.apply faults x.commit f) =
      (.apply (.ok (.recovered out)), .running (.idle db state)) := by
  have hx : Exact o h db state := ht.exact_
  obtain ⟨e, he, hex⟩ := ht.exists_entry hmem
  have hout : e.output = some out := by rw [hex.2, hwork]; rfl
  have hlt := hx.mem_lt (mem_of_mem_drop he)
  rw [hex.1] at hlt
  rcases applyCommitted_old faults (.atomic f) hk hx hlt with
    ⟨e', he', hcommit, -, -, out', hout', hrun⟩ | ⟨hno, -⟩
  · have heq : e' = e := hx.eq_of_sequence (mem_of_mem_drop he') (mem_of_mem_drop he)
      (by rw [hcommit, hex.1])
    rw [heq, hout] at hout'
    cases hout'
    simp only [Node.step, hrun]
    rfl
  · refine absurd ⟨e, he, hex.1, ?_, ?_⟩ hno
    · rw [Entry.kind, hout]
      rfl
    · rw [Entry.codec, hout]
      rfl

theorem Tracks.advance_retained (hmem : x ∈ retained o acc)
    (hwork : x.work = none) (faults : Faults) :
    Node.step (E := E) k (.running (.idle db state)) (.advance faults x.commit) =
      (.advance (.ok (.recovered ())), .running (.idle db state)) := by
  have hx : Exact o h db state := ht.exact_
  obtain ⟨e, he, hex⟩ := ht.exists_entry hmem
  have hout : e.output = none := by rw [hex.2, hwork]; rfl
  have hlt := hx.mem_lt (mem_of_mem_drop he)
  rw [hex.1] at hlt
  rcases advanceCommitted_old faults hk hx hlt with ⟨-, hrun⟩ | ⟨hno, -⟩
  · simp only [Node.step, hrun]
    rfl
  · refine absurd ⟨e, he, hex.1, ?_, ?_⟩ hno
    · rw [Entry.kind, hout]
      rfl
    · rw [Entry.codec, hout]
      rfl

theorem Tracks.apply_refused (hlt : commit.sequence.toNat < o.initialSequence.toNat + h.length)
    (hno : ∀ x ∈ retained o acc, x.commit = commit → x.kind ≠ .operation) (faults : Faults)
    (f : A → Except E (A × Out)) :
    ∃ err, Node.step k (.running (.idle db state)) (.apply faults commit f) =
      (.apply (.error err), .running (.idle db state)) := by
  have hx : Exact o h db state := ht.exact_
  rcases applyCommitted_old faults (.atomic f) hk hx hlt with
    ⟨e, he, hcommit, hkind, -⟩ | ⟨-, err, hrun⟩
  · obtain ⟨x, hmem, hex⟩ := ht.exists_accepted he
    exact absurd (hex.kind.symm.trans hkind) (hno x hmem (hex.1.symm.trans hcommit))
  · refine ⟨err, ?_⟩
    simp only [Node.step, hrun]
    rfl

theorem Tracks.advance_refused (hlt : commit.sequence.toNat < o.initialSequence.toNat + h.length)
    (hno : ∀ x ∈ retained o acc, x.commit = commit → x.kind ≠ .advance) (faults : Faults) :
    ∃ err, Node.step (E := E) k (.running (.idle db state)) (.advance faults commit) =
      (.advance (.error err), .running (.idle db state)) := by
  have hx : Exact o h db state := ht.exact_
  rcases advanceCommitted_old faults hk hx hlt with
    ⟨⟨e, he, hcommit, hkind, -⟩, -⟩ | ⟨-, err, hrun⟩
  · obtain ⟨x, hmem, hex⟩ := ht.exists_accepted he
    exact absurd (hex.kind.symm.trans hkind) (hno x hmem (hex.1.symm.trans hcommit))
  · refine ⟨err, ?_⟩
    simp only [Node.step, hrun]
    rfl

end

/-! ## Runs -/

/-- The calls `ls` and their replies lead from one engine to another. -/
abbrev Runs (k : Codec C Out) (n : Node A C) (ls : List (Call A C E Out × Answer E Out))
    (n' : Node A C) : Prop :=
  Path (fun n (l : Call A C E Out × Answer E Out) n' => n.step k l.1 = (l.2, n')) n ls n'

theorem Runs.tracks (hk : k.Lawful) (hvalid : o.validate = .ok ()) {w0 : Writer A C}
    (hopen : openWriter k o (createMetadataTables k o ⟨a0, none, none⟩) = .ok w0)
    {ls : List (Call A C E Out × Answer E Out)} (hrun : Runs k (.running w0) ls n) :
    ∃ h state, Tracks k o a0 (ls.filterMap accepted) h state n := by
  refine hrun.invariant (I := fun ls n => ∃ h state,
    Tracks k o a0 (ls.filterMap accepted) h state n) ?_ ?_
  · have hx := exact_created (k := k) hvalid a0
    obtain ⟨state, hload, -, -, rfl⟩ := openWriter_ok hopen
    obtain rfl := Except.ok.inj (hx.loads.symm.trans hload)
    exact ⟨[], _, hx, .inl rfl, .nil, .nil⟩
  · rintro ls n ⟨c, a⟩ n' ⟨h, state, ht⟩ hstep
    obtain ⟨h', state', ht'⟩ := ht.step hk hstep
    refine ⟨h', state', ?_⟩
    rw [filterMap_append]
    cases hacc : accepted (c, a) <;> simpa [hacc] using ht'

/-- **Every sequence is applied once.** The applied calls have the sequences from the initial one
on, and the tables are their composition. A retry whose receipt is kept is answered with its output,
every other call that is not new is refused, and both leave the engine as it is. -/
theorem each_sequence_once (hk : k.Lawful) (hvalid : o.validate = .ok ()) {w0 : Writer A C}
    (hopen : openWriter k o (createMetadataTables k o ⟨a0, none, none⟩) = .ok w0)
    {ls : List (Call A C E Out × Answer E Out)} (hrun : Runs k (.running w0) ls n) :
    (∀ i x, (ls.filterMap accepted)[i]? = some x →
      x.commit.sequence.toNat = o.initialSequence.toNat + i) ∧
    Path Accepted.Step a0 (ls.filterMap accepted) n.db.app ∧
    (∃ state, loadState k n.db = .ok state ∧ (∀ w, n = .running w → w.state = state) ∧
      state.lastApplied.map (fun last => (last.commit, last.kind)) =
        (ls.filterMap accepted).getLast?.map fun x => (x.commit, x.kind)) ∧
    ∀ w, n = .running w → ∀ faults,
      (∀ x ∈ retained o (ls.filterMap accepted),
        (∀ (f f' : A → Except E (A × Out)) out, x.work = some (f', out) →
          n.step k (.apply faults x.commit f) = (.apply (.ok (.recovered out)), n)) ∧
        (x.work = none → n.step (E := E) k (.advance faults x.commit) =
          (.advance (.ok (.recovered ())), n))) ∧
      ∀ commit, ∀ last ∈ (ls.filterMap accepted).getLast?,
        commit.sequence ≤ last.commit.sequence →
        ((∀ x ∈ retained o (ls.filterMap accepted), x.commit = commit → x.kind ≠ .operation) →
          ∀ f : A → Except E (A × Out), ∃ err,
            n.step k (.apply faults commit f) = (.apply (.error err), n)) ∧
        ((∀ x ∈ retained o (ls.filterMap accepted), x.commit = commit → x.kind ≠ .advance) →
          ∃ err, n.step (E := E) k (.advance faults commit) = (.advance (.error err), n)) := by
  obtain ⟨h, state, ht⟩ := hrun.tracks hk hvalid hopen
  refine ⟨?_, ht.composed, ⟨state, ht.exact_.loads, ?_, ?_⟩, ?_⟩
  · intro i x hi
    obtain ⟨e, he, hcommit, -⟩ := forall₂_getElem? ht.entries hi
    rw [← hcommit]
    exact ht.exact_.numbered i e he
  · rintro w rfl
    rcases ht.node with hn | hn
    · exact congrArg Writer.state (Node.running.inj hn)
    · cases hn
  · rw [ht.exact_.lastApplied, List.getLast?_eq_getElem?, List.getLast?_eq_getElem?,
      ← ht.entries.length_eq, Option.map_map]
    cases hi : (ls.filterMap accepted)[h.length - 1]? with
    | some x =>
      obtain ⟨e, he, hex⟩ := forall₂_getElem? ht.entries hi
      rw [he]
      simp [Entry.applied, hex.1, hex.kind]
    | none =>
      have hlen := ht.entries.length_eq
      rw [getElem?_eq_none_iff] at hi
      rw [getElem?_eq_none (by omega)]
      rfl
  · rintro w rfl faults
    obtain ⟨db, rfl⟩ : ∃ db, w = .idle db state := by
      rcases ht.node with hn | hn
      · exact ⟨_, Node.running.inj hn⟩
      · cases hn
    refine ⟨fun x hx => ⟨fun f f' out hwork => ht.apply_retained hk hx hwork faults f,
      fun hwork => ht.advance_retained hk hx hwork faults⟩, fun commit last hlast hle => ?_⟩
    have hlt := ht.lt_of_le_last hlast hle
    exact ⟨fun hno f => ht.apply_refused hk hlt hno faults f,
      fun hno => ht.advance_refused hk hlt hno faults⟩

def countUp (n : ℕ) : Except String (ℕ × UInt8) := .ok (n + 1, UInt8.ofNat (n + 1))

/-- A counter that keeps one receipt, after two operations and a restart. -/
theorem each_sequence_once_counter : Node.step (E := String) oneByte
      (.running (counted (counted (newCounter keepOne 0) 5 0) 6 0))
      (.apply {} (commitAt 6 0) fun n => .ok (n, 0)) =
        (.apply (.ok (.recovered 2)),
          .running (counted (counted (newCounter keepOne 0) 5 0) 6 0)) := by
  have hrun : Runs oneByte (.running (newCounter keepOne 0))
      [(.apply {} (commitAt 5 0) countUp, .apply (.ok (.applied 1))),
        (.apply {} (commitAt 6 0) countUp, .apply (.ok (.applied 2))),
        (.shutdown, .done (.ok ())), (.start keepOne, .done (.ok ()))]
      (.running (counted (counted (newCounter keepOne 0) 5 0) 6 0)) :=
    .snoc (.snoc (.snoc (.snoc .nil rfl) rfl) rfl) rfl
  have hkept : (⟨commitAt 6 0, some (countUp, 2)⟩ : Accepted ℕ UInt8 String UInt8) ∈
      retained keepOne [⟨commitAt 5 0, some (countUp, 1)⟩, ⟨commitAt 6 0, some (countUp, 2)⟩] :=
    mem_singleton.mpr rfl
  exact (((each_sequence_once oneByte_lawful rfl rfl hrun).2.2.2 _ rfl {}).1 _ hkept).1 _ countUp 2 rfl

end Hiqlite.External
