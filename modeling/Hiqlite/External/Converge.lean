import Hiqlite.External.Once

/-!
# G12 — engines of one log

Engines that apply the entries of one committed log, each with its own retries, faults and restarts.

* **`engines_converge`**: engines that are equally far have the same tables and receipts.
-/

namespace Hiqlite.External

open List Option

variable {A C Out E : Type} [DecidableEq C] {k : Codec C Out} {o : ExternalSqliteOptions} {a0 : A}
  {acc : List (Accepted A C E Out)} {h : List (Entry k)} {state : StoredState C} {n n' : Node A C}

/-- What is committed under each sequence, with an operation or without one. -/
abbrev CommitLog (A C E Out : Type) :=
  CommitSequence → ExternalCommit C × Option (A → Except E (A × Out))

/-- The call is for an entry of the log. -/
def Call.From (log : CommitLog A C E Out) : Call A C E Out → Prop
  | .apply _ commit f => log commit.sequence = (commit, some f)
  | .advance _ commit => log commit.sequence = (commit, none)
  | _ => True

def Accepted.sequence (x : Accepted A C E Out) : CommitSequence := x.commit.sequence

def Accepted.From (log : CommitLog A C E Out) (x : Accepted A C E Out) : Prop :=
  log x.sequence = (x.commit, x.work.map Prod.fst)

variable {log : CommitLog A C E Out}

section

omit [DecidableEq C]

theorem accepted_from {ls : List (Call A C E Out × Answer E Out)} (hls : ∀ l ∈ ls, l.1.From log) :
    ∀ x ∈ ls.filterMap accepted, x.From log := by
  intro x hx
  obtain ⟨l, hl, hx⟩ := mem_filterMap.mp hx
  have hc := hls l hl
  unfold accepted at hx
  split at hx <;> cases hx <;> exact hc

/-- An entry of the log does the same to the same tables. -/
theorem Accepted.Step.unique {a b b' : A} {x y : Accepted A C E Out} (hx : x.From log)
    (hy : y.From log) (hseq : x.sequence = y.sequence) (hb : x.Step a b) (hb' : y.Step a b') :
    x = y ∧ b = b' := by
  obtain ⟨c, work⟩ := x
  obtain ⟨c', work'⟩ := y
  obtain ⟨rfl, hwork⟩ := Prod.mk.inj ((hx.symm.trans (congrArg log hseq)).trans hy)
  rcases work with _ | ⟨f, out⟩ <;> rcases work' with _ | ⟨f', out'⟩ <;> cases hwork
  · exact ⟨rfl, hb.trans hb'.symm⟩
  · obtain ⟨rfl, rfl⟩ := Prod.mk.inj (Except.ok.inj (hb.symm.trans hb'))
    exact ⟨rfl, rfl⟩

theorem composed_unique {a a' : A} {acc' : List (Accepted A C E Out)}
    (hp : Path Accepted.Step a0 acc a) (hp' : Path Accepted.Step a0 acc' a')
    (hlog : ∀ x ∈ acc, x.From log) (hlog' : ∀ x ∈ acc', x.From log)
    (hseq : acc.map Accepted.sequence = acc'.map Accepted.sequence) : acc = acc' ∧ a = a' := by
  induction hp generalizing acc' a' with
  | nil =>
    obtain rfl := map_eq_nil_iff.mp hseq.symm
    exact ⟨rfl, hp'.of_nil.symm⟩
  | @snoc xs b a x hp hx ih =>
    rw [map_append, eq_comm, map_eq_append_iff] at hseq
    obtain ⟨ys, zs, rfl, hys, hzs⟩ := hseq
    obtain ⟨y, rfl, hy⟩ := map_eq_singleton_iff.mp hzs
    obtain ⟨b', hp', hlast⟩ := hp'.of_append
    obtain ⟨_, hstep, hend⟩ := hlast.of_cons
    obtain rfl := hend.of_nil
    obtain ⟨rfl, rfl⟩ := ih hp' (fun z hz => hlog z (mem_append_left _ hz))
      (fun z hz => hlog' z (mem_append_left _ hz)) hys.symm
    obtain ⟨rfl, rfl⟩ := Accepted.Step.unique (hlog x (by simp)) (hlog' y (by simp)) hy.symm hx hstep
    exact ⟨rfl, rfl⟩

theorem Tracks.sequences (ht : Tracks k o a0 acc h state n) : acc.map Accepted.sequence =
    (range h.length).map fun i => .ofNat (o.initialSequence.toNat + i) := by
  refine ext_getElem? fun i => ?_
  rw [getElem?_map, getElem?_map]
  cases hi : acc[i]? with
  | none =>
    rw [getElem?_eq_none (by simpa [ht.entries.length_eq] using hi)]
    rfl
  | some x =>
    obtain ⟨e, he, hcommit, -⟩ := forall₂_getElem? ht.entries hi
    rw [List.getElem?_range (List.getElem?_eq_some_iff.mp he).1, Option.map_some, Option.map_some,
      ← ht.exact_.numbered i e he, hcommit, UInt64.ofNat_toNat]
    rfl

theorem entries_unique {h' : List (Entry k)} (hh : Forall₂ EntryOf h acc)
    (hh' : Forall₂ EntryOf h' acc) : h = h' := by
  induction hh generalizing h' with
  | nil => exact (forall₂_nil_right_iff.mp hh').symm
  | cons hex _ ih =>
    obtain ⟨e', t', hex', ht', rfl⟩ := forall₂_cons_right_iff.mp hh'
    rw [ih ht', Entry.eq_of (hex.1.trans hex'.1.symm) (hex.2.trans hex'.2.symm)]

end

/-- **Engines converge.** However often the entries of one log are sent to two engines, with whatever
faults and restarts: with the same last applied sequence they have the same tables and receipts. -/
theorem engines_converge (hk : k.Lawful) (hvalid : o.validate = .ok ()) {w0 : Writer A C}
    (hopen : openWriter k o (createMetadataTables k o ⟨a0, none, none⟩) = .ok w0)
    {ls ls' : List (Call A C E Out × Answer E Out)} (hrun : Runs k (.running w0) ls n)
    (hrun' : Runs k (.running w0) ls' n') (hls : ∀ l ∈ ls, l.1.From log)
    (hls' : ∀ l ∈ ls', l.1.From log) {state state' : StoredState C}
    (hload : loadState k n.db = .ok state) (hload' : loadState k n'.db = .ok state')
    (hlast : state.lastApplied.map (·.commit.sequence) = state'.lastApplied.map (·.commit.sequence)) :
    n.db.app = n'.db.app ∧ state.lastApplied = state'.lastApplied ∧
      n.db.receipts.map Rows.rows = n'.db.receipts.map Rows.rows := by
  obtain ⟨h, st, ht⟩ := hrun.tracks hk hvalid hopen
  obtain ⟨h', st', ht'⟩ := hrun'.tracks hk hvalid hopen
  have hx := ht.exact_
  have hx' := ht'.exact_
  obtain rfl := Except.ok.inj (hx.loads.symm.trans hload)
  obtain rfl := Except.ok.inj (hx'.loads.symm.trans hload')
  have hlen : h.length = h'.length := by
    rw [hx.lastApplied, hx'.lastApplied, Option.map_map, Option.map_map] at hlast
    cases he : h.getLast? <;> cases he' : h'.getLast? <;> rw [he, he'] at hlast
    · rw [getLast?_eq_none_iff.mp he, getLast?_eq_none_iff.mp he']
    · cases hlast
    · cases hlast
    · have h1 := hx.last_sequence he
      have h2 := hx'.last_sequence he'
      have hseq := congrArg UInt64.toNat (some.inj hlast)
      simp only [Function.comp_apply, Entry.applied] at hseq
      omega
  obtain ⟨hacc, happ⟩ := composed_unique ht.composed ht'.composed (accepted_from hls)
    (accepted_from hls') (by rw [ht.sequences, ht'.sequences, hlen])
  obtain rfl := entries_unique ht.entries (hacc ▸ ht'.entries)
  obtain ⟨table, htable, hrows⟩ := hx.receipts
  obtain ⟨table', htable', hrows'⟩ := hx'.receipts
  exact ⟨happ, by rw [hx.lastApplied, hx'.lastApplied], by
    rw [htable, htable', map_some, map_some, hrows, hrows']⟩

def counterLog : CommitLog ℕ UInt8 String UInt8 := fun s => (commitAt s 0, some countUp)

def countedOnce : Call ℕ UInt8 String UInt8 × Answer String UInt8 :=
  (.apply {} (commitAt 5 0) countUp, .apply (.ok (.applied 1)))

/-- One operation, then a restart of the one engine and a retry at the other. -/
theorem engines_converge_counter : ∃ n n' : Node ℕ UInt8,
    Runs oneByte (.running (newCounter keepOne 0))
      [countedOnce, (.shutdown, .done (.ok ())), (.start keepOne, .done (.ok ()))] n ∧
    Runs oneByte (.running (newCounter keepOne 0))
      [countedOnce, (countedOnce.1, .apply (.ok (.recovered 1)))] n' ∧ n.db.app = n'.db.app := by
  have hopen : openWriter oneByte keepOne (createMetadataTables oneByte keepOne ⟨0, none, none⟩) =
      .ok (newCounter keepOne 0) := rfl
  have hrun : Runs oneByte (.running (newCounter keepOne 0))
      [countedOnce, (.shutdown, .done (.ok ())), (.start keepOne, .done (.ok ()))]
      (.running (counted (newCounter keepOne 0) 5 0)) := .snoc (.snoc (.snoc .nil rfl) rfl) rfl
  have hrun' : Runs oneByte (.running (newCounter keepOne 0))
      [countedOnce, (countedOnce.1, .apply (.ok (.recovered 1)))]
      (.running (counted (newCounter keepOne 0) 5 0)) := .snoc (.snoc .nil rfl) rfl
  have hcall : countedOnce.1.From counterLog := rfl
  exact ⟨_, _, hrun, hrun', (engines_converge oneByte_lawful rfl hopen hrun hrun'
    (by simpa [Call.From] using hcall) (by simpa using hcall) rfl rfl rfl).1⟩

end Hiqlite.External
