import Hiqlite.Lib.Path
import Hiqlite.Snapshot.Select

/-!
# S2 — the background cleanup of snapshots

Every build of a snapshot spawns a task that lists the directory and removes all it has seen but its
own snapshot, next to later builds, receives and installs. One file operation is one step.

* **`cleanup_keeps_needed`**; `cleanup_removes_needed`.
-/

namespace Hiqlite.Snapshot

open List Option

/-- The file names of a state machine, and what its cleanup does with them. -/
structure Layout (I N : Type) where
  receiving : N
  building : I → N
  snapshot : I → N
  spared : N → Bool
  eager : Bool
  snapshot_injective : Function.Injective snapshot
  snapshot_ne_receiving : ∀ i, snapshot i ≠ receiving
  building_ne_snapshot : ∀ i j, building i ≠ snapshot j
  building_ne_receiving : ∀ i, building i ≠ receiving

theorem Sqlite.snapshot_ne_receiving (i : ℕ) : Name.snapshot i ≠ .receiving := by simp

theorem Sqlite.building_ne_snapshot (i j : ℕ) : Name.building i ≠ .snapshot j := by simp

theorem Sqlite.building_ne_receiving (i : ℕ) : Name.building i ≠ .receiving := by simp

/-- SQLite: `snapshots_cleanup` collects every other file and then removes them. -/
def sqlite : Layout ℕ Sqlite.Name where
  receiving := .receiving
  building := .building
  snapshot := .snapshot
  spared _ := false
  eager := false
  snapshot_injective _ _ h := by cases h; rfl
  snapshot_ne_receiving := Sqlite.snapshot_ne_receiving
  building_ne_snapshot := Sqlite.building_ne_snapshot
  building_ne_receiving := Sqlite.building_ne_receiving

namespace Cache

/-- The names that the task of `persist_snapshot` skips. -/
def spared (name : List Char) : Bool :=
  name.isEmpty || (['~'] : List Char).isSuffixOf name || "tmp".toList.isSuffixOf name ||
    "temp".toList.isSuffixOf name

theorem spared_tilde (name : List Char) : spared (name ++ ['~']) = true := by
  have : (['~'] : List Char).isSuffixOf (name ++ ['~']) = true := by simp
  simp [spared, this]

theorem spared_name (leader : LeaderId → List Char) (u : Snap) : spared (u.name leader) = false := by
  have hne : (u.name leader).isEmpty = false := by
    unfold Snap.name snapshotId
    cases u.last <;> simp
  rw [spared, hne, isSuffixOf_name u (d := '~') rfl (by decide) (by decide),
    isSuffixOf_name u (d := 'p') (by decide) (by decide) (by decide),
    isSuffixOf_name u (d := 'p') (by decide) (by decide) (by decide)]
  rfl

end Cache

/-- The cache: the task of `persist_snapshot` removes every file at once. -/
def cache : Layout { n : List Char // Cache.spared n = false } (List Char) where
  receiving := "temp~".toList
  building n := n.val ++ ['~']
  snapshot := Subtype.val
  spared := Cache.spared
  eager := true
  snapshot_injective := Subtype.val_injective
  snapshot_ne_receiving n h := by
    have : Cache.spared n.val = true := by rw [h]; decide
    simp [n.2] at this
  building_ne_snapshot m n h := by
    have : Cache.spared n.val = true := by rw [← h]; exact Cache.spared_tilde _
    simp [n.2] at this
  building_ne_receiving n h := by
    have hn : n.val = "temp".toList :=
      append_cancel_right (h.trans (by decide : "temp~".toList = "temp".toList ++ ['~']))
    have : Cache.spared n.val = true := by rw [hn]; decide
    simp [n.2] at this

variable {I N : Type} [DecidableEq N]

/-- What a task keeps, whether it is still listing, and what it is going to remove. -/
structure Task (I N : Type) where
  keep : I
  listing : Bool
  deletes : List N
  deriving DecidableEq

/-- The directory and the tasks. `done` are the completed snapshots. -/
structure State (I N : Type) where
  files : Finset N
  receiving : Bool
  done : List I
  tasks : List (Task I N)

inductive Event (I N : Type)
  | startBuild (i : I)
  | finishBuild (i : I)
  | beginReceiving
  /-- `install_snapshot` renames the received file. -/
  | install (i : I)
  | see (t : ℕ) (n : N)
  | endListing (t : ℕ)
  | remove (t : ℕ)
  | stop (t : ℕ)

namespace Layout

def deletes (L : Layout I N) (keep : I) (n : N) : Bool := n ≠ L.snapshot keep && !L.spared n

def step (L : Layout I N) (s : State I N) : Event I N → Option (State I N)
  | .startBuild i => some { s with files := insert (L.building i) s.files }
  | .finishBuild i =>
    if L.building i ∈ s.files then
      some { s with
        files := insert (L.snapshot i) (s.files.erase (L.building i))
        done := s.done ++ [i]
        tasks := s.tasks ++ [⟨i, true, []⟩] }
    else none
  | .beginReceiving => some { s with files := insert L.receiving s.files, receiving := true }
  | .install i =>
    if s.receiving ∧ L.receiving ∈ s.files then
      some { s with
        files := insert (L.snapshot i) (s.files.erase L.receiving)
        receiving := false
        done := s.done ++ [i] }
    else none
  | .see t n => do
    let task ← s.tasks[t]?
    if task.listing ∧ n ∈ s.files then
      if L.deletes task.keep n then
        some { s with tasks := s.tasks.set t { task with deletes := task.deletes ++ [n] } }
      else some s
    else none
  | .endListing t => do
    let task ← s.tasks[t]?
    some { s with tasks := s.tasks.set t { task with listing := false } }
  | .remove t => do
    let task ← s.tasks[t]?
    match task.deletes with
    | [] => none
    | n :: rest =>
      if L.eager || !task.listing then
        some { s with
          files := s.files.erase n
          tasks := s.tasks.set t { task with deletes := rest } }
      else none
  | .stop t => do
    let task ← s.tasks[t]?
    some { s with tasks := s.tasks.set t { task with listing := false, deletes := [] } }

end Layout

namespace State

def Spares (s : State I N) (n : N) : Prop := ∀ task ∈ s.tasks, n ∉ task.deletes

instance (s : State I N) (n : N) : Decidable (s.Spares n) := by unfold Spares; infer_instance

def Highest (last : I → Option LogId) (s : State I N) (i : I) : Prop :=
  ∀ j ∈ s.done, Precedes (last j) (last i)

instance (last : I → Option LogId) (s : State I N) (i : I) : Decidable (s.Highest last i) := by
  unfold Highest; infer_instance

/-- The most advanced snapshot so far is on disk, and so is a file that is being received. -/
def Safe (L : Layout I N) (last : I → Option LogId) (s : State I N) : Prop :=
  (s.done ≠ [] → ∃ i ∈ s.done, s.Highest last i ∧ L.snapshot i ∈ s.files) ∧
    (s.receiving = true → L.receiving ∈ s.files)

instance (L : Layout I N) (last : I → Option LogId) (s : State I N) : Decidable (s.Safe L last) := by
  unfold Safe; infer_instance

def start (files : Finset N) (first : Option I) : State I N := ⟨files, false, first.toList, []⟩

end State

/-- An event comes at a time at which it does no harm. -/
def Timely (L : Layout I N) (last : I → Option LogId) (s : State I N) : Event I N → Prop
  | .see t _ => ∀ task ∈ s.tasks[t]?, s.done.getLast? = some task.keep ∧
      s.Highest last task.keep ∧ (s.receiving = true → L.spared L.receiving = true)
  | .finishBuild i | .install i => s.Spares (L.snapshot i)
  | .beginReceiving => s.Spares L.receiving
  | _ => True

instance [DecidableEq I] (L : Layout I N) (last : I → Option LogId) (s : State I N)
    (e : Event I N) : Decidable (Timely L last s e) := by
  cases e <;> unfold Timely <;> infer_instance

def Timed (L : Layout I N) (last : I → Option LogId) (s : State I N)
    (e : Event I N) (t : State I N) : Prop :=
  L.step s e = some t ∧ Timely L last s e

/-! ## The invariant -/

def State.Keeps (s : State I N) (n : N) : Prop := n ∈ s.files ∧ s.Spares n

/-- The newest snapshot, a most advanced one and the received file stay on disk. -/
structure Ok (L : Layout I N) (last : I → Option LogId) (s : State I N) : Prop where
  newest : ∀ i ∈ s.done.getLast?, s.Keeps (L.snapshot i)
  highest : s.done ≠ [] → ∃ i ∈ s.done, s.Highest last i ∧ s.Keeps (L.snapshot i)
  received : s.receiving = true → s.Keeps L.receiving

variable {L : Layout I N} {last : I → Option LogId} {s t : State I N} {e : Event I N} {n : N} {i : I}

omit [DecidableEq N] in
theorem Ok.safe (h : Ok L last s) : s.Safe L last := by
  refine ⟨fun hne => ?_, fun hr => (h.received hr).1⟩
  obtain ⟨i, hi, hhigh, hk⟩ := h.highest hne
  exact ⟨i, hi, hhigh, hk.1⟩

omit [DecidableEq N] in
theorem State.Spares.set {k : ℕ} {task task' : Task I N} {files : Finset N} {done : List I} {r : Bool}
    (h : s.Spares n) (hk : s.tasks[k]? = some task) (hsub : n ∈ task'.deletes → n ∈ task.deletes) :
    (⟨files, r, done, s.tasks.set k task'⟩ : State I N).Spares n := by
  intro x hx
  rcases mem_or_eq_of_mem_set hx with hx | rfl
  · exact h x hx
  · exact fun hn => h task (mem_of_getElem? hk) (hsub hn)

/-- The event does not rename `n`, and no cleanup sees it that would remove it. -/
def Harmless (L : Layout I N) (s : State I N) (n : N) : Event I N → Prop
  | .finishBuild i => n ≠ L.building i
  | .install _ => n ≠ L.receiving
  | .see t _ => ∀ task ∈ s.tasks[t]?, L.deletes task.keep n = false
  | _ => True

theorem State.Keeps.step (hk : s.Keeps n) (h : L.step s e = some t) (hh : Harmless L s n e) :
    t.Keeps n := by
  obtain ⟨hin, hsp⟩ := hk
  cases e with
  | startBuild | beginReceiving =>
    cases h
    exact ⟨Finset.mem_insert_of_mem hin, hsp⟩
  | finishBuild i =>
    simp only [Layout.step, ite_none_right_eq_some, some.injEq] at h
    obtain ⟨-, rfl⟩ := h
    refine ⟨Finset.mem_insert_of_mem (Finset.mem_erase.mpr ⟨hh, hin⟩), fun task htask => ?_⟩
    rcases mem_append.mp htask with htask | htask
    · exact hsp task htask
    · rw [mem_singleton.mp htask]
      simp
  | install i =>
    simp only [Layout.step, ite_none_right_eq_some, some.injEq] at h
    obtain ⟨-, rfl⟩ := h
    exact ⟨Finset.mem_insert_of_mem (Finset.mem_erase.mpr ⟨hh, hin⟩), hsp⟩
  | see k m =>
    obtain ⟨task, hget, h⟩ := bind_eq_some_iff.mp h
    simp only [ite_none_right_eq_some] at h
    obtain ⟨-, h⟩ := h
    by_cases hd : L.deletes task.keep m = true
    · rw [if_pos hd] at h
      cases h
      refine ⟨hin, hsp.set hget fun hn => ?_⟩
      rcases mem_append.mp hn with hn | hn
      · exact hn
      · -- the file that was seen is another one
        rw [← mem_singleton.mp hn, hh task hget] at hd
        exact absurd hd (by simp)
    · rw [if_neg hd] at h
      cases h
      exact ⟨hin, hsp⟩
  | endListing k =>
    obtain ⟨task, hget, h⟩ := bind_eq_some_iff.mp h
    cases h
    exact ⟨hin, hsp.set hget id⟩
  | remove k =>
    obtain ⟨task, hget, h⟩ := bind_eq_some_iff.mp h
    cases hdel : task.deletes with
    | nil => simp [hdel] at h
    | cons m rest =>
      simp only [hdel, ite_none_right_eq_some, some.injEq] at h
      obtain ⟨-, rfl⟩ := h
      have hne : n ≠ m := by
        rintro rfl
        exact hsp task (mem_of_getElem? hget) (by simp [hdel])
      exact ⟨Finset.mem_erase.mpr ⟨hne, hin⟩, hsp.set hget fun hn => by simp [hdel, hn]⟩
  | stop k =>
    obtain ⟨task, hget, h⟩ := bind_eq_some_iff.mp h
    cases h
    exact ⟨hin, hsp.set hget (by simp)⟩

def Event.completes : Event I N → Option I
  | .finishBuild i | .install i => some i
  | _ => none

theorem step_done (h : L.step s e = some t) : t.done = s.done ++ e.completes.toList := by
  cases e <;> grind [Layout.step, Event.completes]

theorem step_receiving (h : L.step s e = some t) : t.receiving = match e with
    | .beginReceiving => true
    | .install _ => false
    | _ => s.receiving := by
  cases e <;> grind [Layout.step]

theorem keeps_completed (h : L.step s e = some t) (hc : e.completes = some i)
    (hsp : s.Spares (L.snapshot i)) : t.Keeps (L.snapshot i) := by
  cases e with
  | finishBuild j =>
    cases hc
    simp only [Layout.step, ite_none_right_eq_some, some.injEq] at h
    obtain ⟨-, rfl⟩ := h
    refine ⟨Finset.mem_insert_self _ _, fun task htask => ?_⟩
    rcases mem_append.mp htask with htask | htask
    · exact hsp task htask
    · rw [mem_singleton.mp htask]
      simp
  | install j =>
    cases hc
    simp only [Layout.step, ite_none_right_eq_some, some.injEq] at h
    obtain ⟨-, rfl⟩ := h
    exact ⟨Finset.mem_insert_self _ _, hsp⟩
  | _ => cases hc

theorem deletes_keep (i : I) : L.deletes i (L.snapshot i) = false := by simp [Layout.deletes]

theorem harmless_snapshot (i : I) (hsee : ∀ k m, e = .see k m → ∀ task ∈ s.tasks[k]?,
    L.deletes task.keep (L.snapshot i) = false) : Harmless L s (L.snapshot i) e := by
  cases e with
  | finishBuild j => exact (L.building_ne_snapshot j i).symm
  | install j => exact L.snapshot_ne_receiving i
  | see k m => exact hsee k m rfl
  | _ => trivial

theorem Ok.received_step (h : Ok L last s) (hs : Timed L last s e t) :
    t.receiving = true → t.Keeps L.receiving := by
  obtain ⟨hstep, htime⟩ := hs
  rw [step_receiving hstep]
  intro hr
  cases e with
  | beginReceiving =>
    cases hstep
    exact ⟨Finset.mem_insert_self _ _, htime⟩
  | install j => cases hr
  | finishBuild j => exact (h.received hr).step hstep (L.building_ne_receiving j).symm
  | see k m =>
    refine (h.received hr).step hstep fun task htask => ?_
    simp [Layout.deletes, (htime task htask).2.2 hr]
  | _ => exact (h.received hr).step hstep trivial

theorem Ok.step (hlog : OneLog last) (h : Ok L last s) (hs : Timed L last s e t) : Ok L last t := by
  have hreceived := h.received_step hs
  obtain ⟨hstep, htime⟩ := hs
  have hdone := step_done hstep
  cases hc : e.completes with
  | some i =>
    -- a snapshot is completed; it is the newest
    have hi : t.Keeps (L.snapshot i) := by
      refine keeps_completed hstep hc ?_
      cases e <;> cases hc <;> exact htime
    rw [hc, toList_some] at hdone
    refine ⟨by simp [hdone, hi], fun _ => ?_, hreceived⟩
    by_cases hne : s.done = []
    · refine ⟨i, by simp [hdone], fun j hj => ?_, hi⟩
      have : j = i := by simpa [hdone, hne] using hj
      exact this ▸ Precedes.refl _
    · obtain ⟨j, hj, hhigh, hk⟩ := h.highest hne
      have hsplit : ∀ k ∈ t.done, k ∈ s.done ∨ k = i := by simp [hdone]
      rcases hlog j i with hji | hij
      · refine ⟨i, by simp [hdone], fun k hkd => ?_, hi⟩
        rcases hsplit k hkd with hkd | rfl
        · exact (hhigh k hkd).trans hji
        · exact Precedes.refl _
      · refine ⟨j, by simp [hdone, hj], fun k hkd => ?_, hk.step hstep (harmless_snapshot j ?_)⟩
        · rcases hsplit k hkd with hkd | rfl
          · exact hhigh k hkd
          · exact hij
        · rintro k m rfl
          cases hc
  | none =>
    rw [hc, toList_none, append_nil] at hdone
    have hhigh : ∀ j, s.Highest last j → t.Highest last j := fun j hj => by
      rwa [State.Highest, hdone]
    -- a cleanup keeps the newest snapshot
    have hnew : ∀ i ∈ s.done.getLast?, Harmless L s (L.snapshot i) e := by
      intro i hi
      refine harmless_snapshot i ?_
      rintro k m rfl task htask
      have : i = task.keep := some.inj (hi.symm.trans (htime task htask).1)
      exact this ▸ deletes_keep i
    refine ⟨fun i hi => ?_, fun hne => ?_, hreceived⟩
    · rw [hdone] at hi
      exact (h.newest i hi).step hstep (hnew i hi)
    · rw [hdone] at hne ⊢
      by_cases hsee : ∃ k m, e = .see k m
      · -- while it is listing, the newest is also the most advanced
        obtain ⟨k, m, rfl⟩ := hsee
        obtain ⟨task, hget, -⟩ := bind_eq_some_iff.mp hstep
        obtain ⟨hlast, hh, -⟩ := htime task hget
        exact ⟨task.keep, mem_of_getLast? hlast, hhigh _ hh,
          (h.newest _ hlast).step hstep (hnew _ hlast)⟩
      · obtain ⟨j, hj, hh, hk⟩ := h.highest hne
        refine ⟨j, hj, hhigh j hh, hk.step hstep (harmless_snapshot j ?_)⟩
        rintro k m rfl
        exact absurd ⟨k, m, rfl⟩ hsee

theorem ok_of_path (hlog : OneLog last) {files : Finset N} {first : Option I}
    (hfirst : ∀ i ∈ first, L.snapshot i ∈ files) {evs : List (Event I N)}
    (h : Path (Timed L last) (.start files first) evs s) : Ok L last s := by
  refine h.invariant (I := fun _ s => Ok L last s) ?_ fun _ _ _ _ hok hs => hok.step hlog hs
  have hkeeps : ∀ i ∈ first, (State.start files first).Keeps (L.snapshot i) := fun i hi =>
    ⟨hfirst i hi, by simp [State.Spares, State.start]⟩
  cases first with
  | none => exact ⟨by simp [State.start], by simp [State.start], by simp [State.start]⟩
  | some i =>
    refine ⟨fun j hj => ?_, fun _ => ⟨i, by simp [State.start], fun j hj => ?_, hkeeps i rfl⟩,
      by simp [State.start]⟩
    · have : i = j := by simpa [State.start] using hj
      exact this ▸ hkeeps i rfl
    · have : j = i := by simpa [State.start] using hj
      exact this ▸ Precedes.refl _

/-- **The cleanup never removes what is needed** along timely runs, in each of the state machines
(`L` is `sqlite` or `cache`). -/
theorem cleanup_keeps_needed (L : Layout I N) (last : I → Option LogId) (files : Finset N)
    (first : Option I) (evs : List (Event I N)) (s : State I N) (hlog : OneLog last)
    (hfirst : ∀ i ∈ first, L.snapshot i ∈ files)
    (h : Path (Timed L last) (.start files first) evs s) : s.Safe L last :=
  (ok_of_path hlog hfirst h).safe

/-! ## Runs -/

def timedStep [DecidableEq I] (L : Layout I N) (last : I → Option LogId) (s : State I N)
    (e : Event I N) : Option (State I N) :=
  if Timely L last s e then L.step s e else none

theorem path_of_timed [DecidableEq I] {evs : List (Event I N)}
    (h : evs.foldlM (timedStep L last) s = some t) : Path (Timed L last) s evs t :=
  (Path.of_foldlM h).mono fun _ _ _ hs => by
    obtain ⟨htime, hstep⟩ := ite_none_right_eq_some.mp hs
    exact ⟨hstep, htime⟩

/-- The cache's snapshot with the last index `i`, built at the second `i`. -/
def cacheId (i : ℕ) : { n : List Char // Cache.spared n = false } :=
  ⟨(⟨i, idAt i⟩ : Cache.Snap).name leaderText, Cache.spared_name _ _⟩

def cacheLast (n : { n : List Char // Cache.spared n = false }) : Option LogId :=
  (Cache.nameIndex n.val).bind fun i => idAt i.toNat

theorem oneLog_idAt : OneLog idAt := by
  intro i j
  rcases lt_trichotomy i j with h | rfl | h
  · exact .inl (.inr h)
  · exact .inl (Precedes.refl _)
  · exact .inr (.inr h)

theorem oneLog_cacheLast : OneLog cacheLast := by
  intro m n
  unfold cacheLast
  cases Cache.nameIndex m.val with
  | none => exact .inl trivial
  | some i =>
    cases Cache.nameIndex n.val with
    | none => exact .inr trivial
    | some j => exact oneLog_idAt _ _

/-- Builds and an install, with a cleanup that is done before the next snapshot. -/
theorem cleanup_keeps_needed_run : (∃ s, Path (Timed sqlite idAt) (.start {.snapshot 1} (some 1))
      [.startBuild 2, .finishBuild 2, .see 0 (.snapshot 1), .see 0 (.snapshot 2), .endListing 0,
        .beginReceiving, .remove 0, .install 5] s ∧ s.Safe sqlite idAt) ∧
    ∃ s, Path (Timed cache cacheLast) (.start {(cacheId 1).val} (some (cacheId 1)))
      [.startBuild (cacheId 2), .finishBuild (cacheId 2), .beginReceiving, .see 0 (cacheId 1).val,
        .remove 0, .see 0 "temp~".toList, .install (cacheId 5)] s ∧ s.Safe cache cacheLast := by
  constructor
  · obtain ⟨s, hs⟩ : ∃ s, foldlM (timedStep sqlite idAt) (.start {.snapshot 1} (some 1))
      [.startBuild 2, .finishBuild 2, .see 0 (.snapshot 1), .see 0 (.snapshot 2), .endListing 0,
        .beginReceiving, .remove 0, .install 5] = some s :=
      isSome_iff_exists.mp (by decide +kernel)
    exact ⟨s, path_of_timed hs, cleanup_keeps_needed sqlite _ _ _ _ _ oneLog_idAt (by decide)
      (path_of_timed hs)⟩
  · obtain ⟨s, hs⟩ : ∃ s, foldlM (timedStep cache cacheLast)
      (.start {(cacheId 1).val} (some (cacheId 1)))
      [.startBuild (cacheId 2), .finishBuild (cacheId 2), .beginReceiving, .see 0 (cacheId 1).val,
        .remove 0, .see 0 "temp~".toList, .install (cacheId 5)] = some s :=
      isSome_iff_exists.mp (by decide +kernel)
    exact ⟨s, path_of_timed hs, cleanup_keeps_needed cache _ _ _ _ _ oneLog_cacheLast
      (by simp [cache]) (path_of_timed hs)⟩

/-- **The cleanup of an earlier build** removes a later snapshot in both state machines, and in
SQLite the file that is being received. -/
theorem cleanup_removes_needed : (∃ s ∈ foldlM sqlite.step (.start ∅ none)
      [.startBuild 1, .finishBuild 1, .startBuild 2, .finishBuild 2, .see 0 (.snapshot 2),
        .endListing 0, .remove 0], ¬ s.Safe sqlite idAt) ∧
    (∃ s ∈ foldlM sqlite.step (.start ∅ none)
      [.startBuild 1, .finishBuild 1, .beginReceiving, .see 0 .receiving, .endListing 0,
        .remove 0], ¬ s.Safe sqlite idAt) ∧
    ∃ s ∈ foldlM cache.step (.start ∅ none)
      [.startBuild (cacheId 1), .finishBuild (cacheId 1), .beginReceiving, .install (cacheId 2),
        .see 0 (cacheId 2).val, .remove 0], ¬ s.Safe cache cacheLast := by
  decide +kernel

end Hiqlite.Snapshot
