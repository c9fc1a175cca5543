import Hiqlite.External.Frontier

/-!
# G11 — installs among other calls

One engine, any number of callers, and files that anybody may change. An install goes on between its
awaits while the writer answers other calls, and the files may change in between.

* `act_did`: what one step can do; **`Did.ok`**, **`Did.forward`**, **`Did.dead`**;
* **`installs_keep_frontier`**; `restored_other_snapshot`: a run in which the file is replaced.
-/

namespace Hiqlite.External

open List Function

variable {A C E Out P U ι : Type}

inductive Server (A C P U : Type)
  | serving (w : Writer A C)
  | restoring (w : Writer A C) (destination : Location P U)
      (evidence : ExternalSnapshotEvidence C)
  | stopped

/-- `install_snapshot` once it has taken the read pool. -/
inductive Locked (C P U : Type)
  | waiting (destination : Location P U) (evidence : ExternalSnapshotEvidence C)
  | reconnect (restore : Except ExternalError (ExternalSnapshotEvidence C))

/-- An engine with the installs that are under way, by their callers `ι`. -/
structure Engine (A C P U ι : Type) where
  files : Files A P U
  server : Server A C P U
  pool : Bool
  lock : Option (ι × Locked C P U)
  installs : ι → Option (Staging C P U)

inductive Act (A C E Out P U ι : Type)
  | apply (faults : Faults) (commit : ExternalCommit C) (op : Operation A E Out)
  | advance (faults : Faults) (commit : ExternalCommit C)
  | lastApplied
  /-- `build_snapshot` into `path`, whose file is then inspected. -/
  | build (faults : SnapshotFaults) (snapshotId : String) (path : Location P U) (bytes : UInt64)
      (sha256 : Sha256Digest) (pageSize : UInt32) (inspected : Bool)
  | read
  | write (path : Location P U) (file : Option (SnapshotFile A))
  | install (i : ι) (path : Location P U) (evidence : ExternalSnapshotEvidence C)
  | stage (i : ι) (fault : Option ExternalError)
  | takePool (i : ι)
  | preflight (poisonMarker : Option String)
  | restore (faults : RestoreFaults A)
  | reconnect (fault : Option String)

inductive Move (C ι : Type)
  | request (ok : Bool)
  | quiet
  | restored (i : ι) (r : Except ExternalError (ExternalSnapshotEvidence C))
  | installed (i : ι) (r : Except ExternalError (ExternalSnapshotEvidence C))

def Server.after (poison : Option ExternalError) (w : Writer A C) : Server A C P U :=
  if poison.isSome then .stopped else .serving w

def Server.writer : Server A C P U → Option (Writer A C)
  | .serving w => some w
  | .restoring w _ _ => some w
  | .stopped => none

namespace Engine

/-- A request to the writer, which is refused once it has stopped. -/
def request (s : Engine A C P U ι) (f : Writer A C → Bool × Engine A C P U ι) :
    Option (Move C ι × Engine A C P U ι) :=
  match s.server with
  | .serving w => some (.request (f w).1, (f w).2)
  | .restoring _ _ _ => none
  | .stopped => some (.request false, s)

variable [DecidableEq C] [DecidableEq P] [DecidableEq U] [DecidableEq ι]

def act (k : Codec C Out) (parseStr : String → Except String U) (s : Engine A C P U ι) :
    Act A C E Out P U ι → Option (Move C ι × Engine A C P U ι)
  | .apply faults commit op => s.request fun w =>
    let r := applyCommitted k faults commit op w
    (r.result.isOk, { s with server := .after r.poison r.writer })
  | .advance faults commit => s.request fun w =>
    let r := advanceCommitted k faults commit w
    (r.result.isOk, { s with server := .after r.poison r.writer })
  | .lastApplied => s.request fun _ => (true, s)
  | .build faults snapshotId path bytes sha256 pageSize inspected =>
    if (s.files path).isSome then some (.request false, s)
    else s.request fun w =>
      match snapshotRequest faults snapshotId w with
      | (.ok _, w) => (inspected, { s with
          server := .serving w
          files := update s.files path
            (some ⟨true, bytes, sha256, .ok "ok", pageSize, w.conn.file⟩) })
      | (.error _, w) => (false, { s with server := .serving w })
  | .read => if s.lock.isSome then none else some (.request s.pool, s)
  | .write path file => some (.quiet, { s with files := update s.files path file })
  | .install i path evidence =>
    match s.installs i with
    | some _ => none
    | none =>
      some (.quiet, { s with installs := update s.installs i (some (.source path evidence)) })
  | .stage i fault =>
    match s.installs i, fault with
    | none, _ => none
    | some (.ready _ _), _ => none
    | some (.failed e), _ =>
      some (.installed i (.error e), { s with installs := update s.installs i none })
    | some _, some e =>
      some (.quiet, { s with installs := update s.installs i (some (.failed e)) })
    | some st, none =>
      let next := Staging.step k parseStr (s.files, st)
      some (.quiet, { s with
        files := next.1, installs := update s.installs i (some next.2) })
  | .takePool i =>
    match s.lock, s.installs i with
    | none, some (.ready destination evidence) => some (.quiet, { s with
        lock := some (i, .waiting destination evidence)
        pool := false
        installs := update s.installs i none })
    | _, _ => none
  | .preflight poisonMarker =>
    match s.lock, s.server with
    | some (i, .waiting _ _), .stopped =>
      some (.installed i (.error .writerClosed), { s with lock := none })
    | some (i, .waiting destination evidence), .serving w =>
      match External.preflight k w.state (s.files destination) evidence, poisonMarker with
      | .error e, _ => some (.quiet, { s with lock := some (i, .reconnect (.error e)) })
      | .ok _, some m => some (.quiet, { s with lock := some (i, .reconnect (.error (.io m))) })
      | .ok _, none => some (.quiet, { s with server := .restoring w destination evidence })
    | _, _ => none
  | .restore faults =>
    match s.lock, s.server with
    | some (i, _), .restoring w destination evidence =>
      let r := restoreReply k faults (s.files destination) evidence w
      some (.restored i r.result, { s with
        server := .after r.poison r.writer
        lock := if r.poison.isSome then none else some (i, .reconnect r.result) })
    | _, _ => none
  | .reconnect fault =>
    match s.lock, fault with
    | some (i, .reconnect r), none => some (.installed i r, { s with lock := none, pool := true })
    | some (i, .reconnect _), some m =>
      some (.installed i (.error (.pool m)), { s with lock := none })
    | _, _ => none

end Engine

/-! ## What a step can do -/

/-- What a step can do to the writer, the read pool and its lock. -/
inductive Did (k : Codec C Out) [DecidableEq C] (s : Engine A C P U ι) :
    Move C ι → Engine A C P U ι → Prop
  | answered (ok : Bool) (hok : ok = true → s.server ≠ .stopped ∨ s.pool = true) :
      Did k s (.request ok) s
  | wrote {s' : Engine A C P U ι} {w w' : Writer A C} (ok : Bool) (hw : s.server = .serving w)
      (hw' : s'.server = .serving w')
      (hgood : Sound k w → Sound k w' ∧ Behind w.state.lastApplied w'.state.lastApplied)
      (hlock : s'.lock = s.lock) (hpool : s'.pool = s.pool) : Did k s (.request ok) s'
  | poisoned {s' : Engine A C P U ι} {w : Writer A C} (ok : Bool) (hw : s.server = .serving w)
      (hw' : s'.server = .stopped) (hlock : s'.lock = s.lock) (hpool : s'.pool = s.pool) :
      Did k s (.request ok) s'
  | staged {m : Move C ι} {s' : Engine A C P U ι}
      (hm : m = .quiet ∨ ∃ i e, m = .installed i (.error e)) (hserver : s'.server = s.server)
      (hlock : s'.lock = s.lock) (hpool : s'.pool = s.pool) : Did k s m s'
  | tookPool {s' : Engine A C P U ι} {i : ι} {destination : Location P U}
      {evidence : ExternalSnapshotEvidence C} (hfree : s.lock = none)
      (hserver : s'.server = s.server) (hlock : s'.lock = some (i, .waiting destination evidence))
      (hpool : s'.pool = false) : Did k s .quiet s'
  | closed {s' : Engine A C P U ι} (i : ι) (hstopped : s.server = .stopped)
      (hserver : s'.server = .stopped) (hlock : s'.lock = none) (hpool : s'.pool = s.pool) :
      Did k s (.installed i (.error .writerClosed)) s'
  | refused {s' : Engine A C P U ι} {w : Writer A C} (hw : s.server = .serving w)
      (hserver : s'.server = s.server) (hheld : s.lock.isSome) (hpool : s'.pool = s.pool) :
      Did k s .quiet s'
  | validated {s' : Engine A C P U ι} {w : Writer A C} {i : ι} {destination : Location P U}
      {evidence : ExternalSnapshotEvidence C} (hw : s.server = .serving w)
      (hlock : s.lock = some (i, .waiting destination evidence))
      (hpre : preflight k w.state (s.files destination) evidence = .ok ())
      (hs' : s' = { s with server := .restoring w destination evidence }) : Did k s .quiet s'
  | restored {s' : Engine A C P U ι} {w : Writer A C} {destination : Location P U}
      {evidence : ExternalSnapshotEvidence C} (i : ι) (faults : RestoreFaults A)
      (hw : s.server = .restoring w destination evidence)
      (hserver : s'.server =
        .after (restoreReply k faults (s.files destination) evidence w).poison
          (restoreReply k faults (s.files destination) evidence w).writer)
      (hlock : (restoreReply k faults (s.files destination) evidence w).poison.isSome →
        s'.lock = none) (hpool : s'.pool = s.pool) :
      Did k s (.restored i (restoreReply k faults (s.files destination) evidence w).result) s'
  | reconnected {s' : Engine A C P U ι} {i : ι}
      {restore : Except ExternalError (ExternalSnapshotEvidence C)}
      (hlock : s.lock = some (i, .reconnect restore))
      (r : Except ExternalError (ExternalSnapshotEvidence C)) (hserver : s'.server = s.server)
      (hfree : s'.lock = none) : Did k s (.installed i r) s'

theorem Engine.request_cases {s s' : Engine A C P U ι} {m : Move C ι}
    {f : Writer A C → Bool × Engine A C P U ι} (h : s.request f = some (m, s')) :
    (∃ w, s.server = .serving w ∧ m = .request (f w).1 ∧ s' = (f w).2) ∨
      s.server = .stopped ∧ m = .request false ∧ s' = s := by
  unfold Engine.request at h
  split at h
  · next w hw =>
    cases h
    exact .inl ⟨w, hw, rfl, rfl⟩
  · cases h
  · next hw =>
    cases h
    exact .inr ⟨hw, rfl, rfl⟩

variable [DecidableEq C] {k : Codec C Out} {s s' : Engine A C P U ι} {m : Move C ι}
  {w : Writer A C}

theorem Did.of_after {w' : Writer A C} (ok : Bool) (hw : s.server = .serving w)
    (poison : Option ExternalError) (hgood : Sound k w → poison = none →
      Sound k w' ∧ Behind w.state.lastApplied w'.state.lastApplied) :
    Did k s (.request ok) { s with server := .after poison w' } := by
  cases poison with
  | none => exact .wrote ok hw rfl (fun hs => hgood hs rfl) rfl rfl
  | some e => exact .poisoned ok hw rfl rfl rfl

section Act

variable [DecidableEq P] [DecidableEq U] [DecidableEq ι] {parseStr : String → Except String U}
  {a : Act A C E Out P U ι}

theorem act_did (hk : k.Lawful) (h : s.act k parseStr a = some (m, s')) : Did k s m s' := by
  have hrefused (hw : s.server = .stopped) : Did k s (.request false) s := .answered false nofun
  cases a with
  | apply faults commit op =>
    rcases Engine.request_cases h with ⟨w, hw, rfl, rfl⟩ | ⟨hw, rfl, rfl⟩
    · exact .of_after _ hw _ fun hs hp => applyCommitted_forward hk hs faults commit op hp
    · exact hrefused hw
  | advance faults commit =>
    rcases Engine.request_cases h with ⟨w, hw, rfl, rfl⟩ | ⟨hw, rfl, rfl⟩
    · exact .of_after _ hw _ fun hs hp => advanceCommitted_forward hk hs faults commit hp
    · exact hrefused hw
  | lastApplied =>
    rcases Engine.request_cases h with ⟨w, hw, rfl, rfl⟩ | ⟨hw, rfl, rfl⟩
    · exact .answered _ fun _ => .inl (by rw [hw]; nofun)
    · exact hrefused hw
  | build faults snapshotId path bytes sha256 pageSize inspected =>
    simp only [Engine.act] at h
    split_ifs at h
    · cases h
      exact .answered _ nofun
    · rcases Engine.request_cases h with ⟨w, hw, rfl, rfl⟩ | ⟨hw, rfl, rfl⟩
      · have hgood (hs : Sound k w) := snapshotRequest_forward hs faults snapshotId
        rcases hrun : snapshotRequest faults snapshotId w with ⟨r, w'⟩
        rw [hrun] at hgood
        have hgood' (hs : Sound k w) :
            Sound k w' ∧ Behind w.state.lastApplied w'.state.lastApplied := by
          obtain ⟨hs', heq⟩ := hgood hs
          refine ⟨hs', ?_⟩
          rw [show w'.state.lastApplied = w.state.lastApplied from heq]
          exact Behind.refl _
        cases r with
        | ok | error => exact .wrote _ hw rfl hgood' rfl rfl
      · exact hrefused hw
  | read =>
    simp only [Engine.act] at h
    split_ifs at h
    cases h
    exact .answered _ .inr
  | write path file =>
    cases h
    exact .staged (.inl rfl) rfl rfl rfl
  | install i path evidence =>
    simp only [Engine.act] at h
    split at h <;> cases h
    exact .staged (.inl rfl) rfl rfl rfl
  | stage i fault =>
    simp only [Engine.act] at h
    split at h <;> cases h
    · exact .staged (.inr ⟨_, _, rfl⟩) rfl rfl rfl
    all_goals exact .staged (.inl rfl) rfl rfl rfl
  | takePool i =>
    simp only [Engine.act] at h
    split at h <;> cases h
    next hlock _ => exact .tookPool hlock rfl rfl rfl
  | preflight poisonMarker =>
    simp only [Engine.act] at h
    split at h
    · next hlock hw =>
      cases h
      exact .closed _ hw hw rfl rfl
    · next i destination evidence w hlock hw =>
      split at h <;> cases h
      · exact .refused hw rfl (by rw [hlock]; rfl) rfl
      · exact .refused hw rfl (by rw [hlock]; rfl) rfl
      · next hpre => exact .validated hw hlock hpre rfl
    · cases h
  | restore faults =>
    simp only [Engine.act] at h
    split at h <;> cases h
    next i _ w destination evidence hlock hw =>
      exact .restored i faults hw rfl (fun hp => if_pos hp) rfl
  | reconnect fault =>
    simp only [Engine.act] at h
    split at h <;> cases h <;> exact .reconnected ‹_› _ rfl rfl

end Act

/-! ## Invariants -/

def Undisturbed (s s' : Engine A C P U ι) : Prop :=
  ∀ w destination evidence, s.server = .restoring w destination evidence →
    s'.files destination = s.files destination

/-- **The state in memory is what is read from the tables**, and a snapshot that is going to be
restored is in order. -/
structure Engine.Ok (k : Codec C Out) (s : Engine A C P U ι) : Prop where
  sound : ∀ w, s.server.writer = some w → Sound k w
  locked : s.lock.isSome → s.pool = false
  restoring : ∀ w destination evidence, s.server = .restoring w destination evidence →
    (∃ i, s.lock = some (i, .waiting destination evidence)) ∧
      preflight k w.state (s.files destination) evidence = .ok ()

/-- The writer has stopped and there is no read pool. -/
structure Engine.Dead (s : Engine A C P U ι) : Prop where
  server : s.server = .stopped
  pool : s.pool = false
  lock : ∀ i r, s.lock ≠ some (i, .reconnect r)

/-- Some call has returned `Ok`, or the writer has restored a snapshot. -/
def Move.Succeeds : Move C ι → Prop
  | .request ok => ok = true
  | .quiet => False
  | .restored _ r => ∃ evidence, r = .ok evidence
  | .installed _ r => ∃ evidence, r = .ok evidence

section

variable (hdid : Did k s m s')
include hdid

theorem Did.ok (hok : s.Ok k) (hu : Undisturbed s s') : s'.Ok k := by
  -- Where the writer is the same, so is the snapshot it is going to restore.
  have hsame (hserver : s'.server = s.server) (hlocked : s'.lock.isSome → s'.pool = false)
      (hlock : ∀ w d ev, s.server = .restoring w d ev → ∃ i, s'.lock = some (i, .waiting d ev)) :
      s'.Ok k := by
    refine ⟨by rw [hserver]; exact hok.sound, hlocked, fun w d ev hw => ?_⟩
    rw [hserver] at hw
    exact ⟨hlock w d ev hw, by rw [hu w d ev hw]; exact (hok.restoring w d ev hw).2⟩
  have hserving {w' : Writer A C} (hw' : s'.server = .serving w') (hs : Sound k w')
      (hlocked : s'.lock.isSome → s'.pool = false) : s'.Ok k := by
    refine ⟨fun w hw => ?_, hlocked, fun w d ev hw => by rw [hw'] at hw; cases hw⟩
    rw [hw'] at hw
    cases hw
    exact hs
  have hstopped (hw' : s'.server = .stopped) (hlocked : s'.lock.isSome → s'.pool = false) :
      s'.Ok k := by
    refine ⟨fun w hw => ?_, hlocked, fun w d ev hw => by rw [hw'] at hw; cases hw⟩
    rw [hw'] at hw
    cases hw
  cases hdid with
  | answered ok hans => exact hok
  | @wrote _ w w' ok hw hw' hgood hlock hpool =>
    refine hserving hw' (hgood (hok.sound w (by rw [hw]; rfl))).1 ?_
    rw [hlock, hpool]
    exact hok.locked
  | poisoned ok hw hw' hlock hpool =>
    refine hstopped hw' ?_
    rw [hlock, hpool]
    exact hok.locked
  | staged hm hserver hlock hpool =>
    refine hsame hserver ?_ fun w d ev hw => ?_
    · rw [hlock, hpool]
      exact hok.locked
    · rw [hlock]
      exact (hok.restoring w d ev hw).1
  | tookPool hfree hserver hlock hpool =>
    refine hsame hserver (fun _ => hpool) fun w d ev hw => ?_
    obtain ⟨⟨i, hheld⟩, -⟩ := hok.restoring w d ev hw
    rw [hfree] at hheld
    cases hheld
  | closed i hw hserver hlock hpool =>
    exact hstopped hserver fun hl => by rw [hlock] at hl; cases hl
  | refused hw hserver hheld hpool =>
    refine hsame hserver (fun _ => by rw [hpool]; exact hok.locked hheld) fun w d ev hw' => ?_
    rw [hw] at hw'
    cases hw'
  | @validated _ w i d ev hw hlock hpre hs' =>
    subst hs'
    refine ⟨fun w' hw' => ?_, hok.locked, fun w' d' ev' hw' => ?_⟩
    · cases hw'
      exact hok.sound w (by rw [hw]; rfl)
    · cases hw'
      exact ⟨⟨i, hlock⟩, hpre⟩
  | @restored _ w d ev i faults hw hserver hlock hpool =>
    have hlocked : s'.pool = false := by
      obtain ⟨⟨i, hheld⟩, -⟩ := hok.restoring w d ev hw
      rw [hpool]
      exact hok.locked (by rw [hheld]; rfl)
    rcases restoreReply_cases k faults (s.files d) ev w with
      ⟨e, w', hrun⟩ | ⟨f, state, -, hload, -, -, hrun⟩
    · rw [hrun] at hserver
      exact hstopped hserver fun _ => hlocked
    · rw [hrun] at hserver
      exact hserving hserver ⟨rfl, hload⟩ fun _ => hlocked
  | @reconnected _ i restore hlock r hserver hfree =>
    refine hsame hserver (fun hl => by rw [hfree] at hl; cases hl) fun w d ev hw => ?_
    obtain ⟨⟨j, hheld⟩, -⟩ := hok.restoring w d ev hw
    rw [hlock] at hheld
    cases hheld

/-- **The frontier does not move back in a step**, and the writer does not start again. -/
theorem Did.forward (hok : s.Ok k) {w' : Writer A C} (hw' : s'.server.writer = some w') :
    ∃ w, s.server.writer = some w ∧ Behind w.state.lastApplied w'.state.lastApplied := by
  have hsame (hserver : s'.server = s.server) :
      ∃ w, s.server.writer = some w ∧ Behind w.state.lastApplied w'.state.lastApplied := by
    rw [hserver] at hw'
    exact ⟨w', hw', Behind.refl _⟩
  cases hdid with
  | answered ok hans => exact ⟨w', hw', Behind.refl _⟩
  | @wrote _ w w'' ok hw hwrote hgood hlock hpool =>
    rw [hwrote] at hw'
    cases hw'
    exact ⟨w, by rw [hw]; rfl, (hgood (hok.sound w (by rw [hw]; rfl))).2⟩
  | poisoned ok hw hstopped hlock hpool =>
    rw [hstopped] at hw'
    cases hw'
  | staged hm hserver hlock hpool => exact hsame hserver
  | tookPool hfree hserver hlock hpool => exact hsame hserver
  | closed i hw hserver hlock hpool =>
    rw [hserver] at hw'
    cases hw'
  | refused hw hserver hheld hpool => exact hsame hserver
  | validated hw hlock hpre hs' =>
    subst hs'
    cases hw'
    exact ⟨_, by rw [hw]; rfl, Behind.refl _⟩
  | @restored _ w d ev i faults hw hserver hlock hpool =>
    refine ⟨w, by rw [hw]; rfl, ?_⟩
    have hbehind := rejectStaleSnapshot_iff.mp (preflight_ok (hok.restoring w d ev hw).2).2.1
    rcases restoreReply_cases k faults (s.files d) ev w with
      ⟨e, w'', hrun⟩ | ⟨f, state, -, -, -, hev, hrun⟩
    · rw [hserver, hrun] at hw'
      cases hw'
    · rw [hserver, hrun] at hw'
      cases hw'
      rw [← hev] at hbehind
      exact hbehind
  | reconnected hlock r hserver hfree => exact hsame hserver

theorem Did.untouched (hm : m = .quiet ∨ ∃ i r, m = .installed i r) :
    s'.server.writer = s.server.writer := by
  have hno : ∀ ok, m ≠ .request ok := by
    rintro ok rfl
    rcases hm with hm | ⟨i, r, hm⟩ <;> cases hm
  cases hdid with
  | answered ok hans => exact absurd rfl (hno ok)
  | wrote ok hw hwrote hgood hlock hpool => exact absurd rfl (hno ok)
  | poisoned ok hw hstopped hlock hpool => exact absurd rfl (hno ok)
  | staged hm hserver hlock hpool => rw [hserver]
  | tookPool hfree hserver hlock hpool => rw [hserver]
  | closed i hw hserver hlock hpool => rw [hserver, hw]
  | refused hw hserver hheld hpool => rw [hserver]
  | validated hw hlock hpre hs' =>
    rw [hs', hw]
    rfl
  | restored i faults hw hserver hlock hpool => rcases hm with hm | ⟨i, r, hm⟩ <;> cases hm
  | reconnected hlock r hserver hfree => rw [hserver]

theorem Did.agrees (hok : s.Ok k) {i : ι} {ev : ExternalSnapshotEvidence C}
    (hm : m = .restored i (.ok ev)) : ∃ w, s'.server = .serving w ∧
      loadState k w.conn.file = .ok w.state ∧ w.state.snapshotId = some ev.snapshotId ∧
      w.state.snapshotEvidence ev.snapshotId ev.sqlitePageSize ev.sqliteBytes ev.sqliteSha256 = ev := by
  cases hdid with
  | staged hm' hserver hlock hpool =>
    rcases hm' with hm' | ⟨i, e, hm'⟩ <;> rw [hm'] at hm <;> cases hm
  | @restored _ w d evidence j faults hw hserver hlock hpool =>
    rcases restoreReply_cases k faults (s.files d) evidence w with
      ⟨e, w'', hrun⟩ | ⟨f, state, hfile, hload, -, hev, hrun⟩
    · rw [hrun] at hm
      cases hm
    · rw [hrun] at hm hserver
      cases hm
      refine ⟨_, hserver, hload, ?_, hev⟩
      -- The file is still the one that was validated.
      obtain ⟨f', state', hfile', hload', -, hid, -⟩ :=
        validateSnapshotFile_ok (preflight_ok (hok.restoring w d ev hw).2).2.2
      obtain rfl := Option.some.inj (hfile.symm.trans hfile')
      obtain rfl := Except.ok.inj (hload.symm.trans hload')
      exact hid
  | _ => cases hm

theorem Did.halfway (hok : s.Ok k) {i : ι} {e : ExternalError} (hm : m = .restored i (.error e)) :
    s'.Dead := by
  cases hdid with
  | staged hm' hserver hlock hpool =>
    rcases hm' with hm' | ⟨i, e, hm'⟩ <;> rw [hm'] at hm <;> cases hm
  | @restored _ w d evidence j faults hw hserver hlock hpool =>
    obtain ⟨⟨j, hheld⟩, -⟩ := hok.restoring w d evidence hw
    rcases restoreReply_cases k faults (s.files d) evidence w with
      ⟨e, w'', hrun⟩ | ⟨f, state, -, -, -, -, hrun⟩
    · rw [hrun] at hserver hlock
      refine ⟨hserver, ?_, fun i r => ?_⟩
      · rw [hpool]
        exact hok.locked (by rw [hheld]; rfl)
      · rw [hlock rfl]
        nofun
    · rw [hrun] at hm
      cases hm
  | _ => cases hm

theorem Did.dead (hdead : s.Dead) : s'.Dead ∧ ¬ m.Succeeds := by
  have hnot {w : Writer A C} (hw : s.server = .serving w) : False := by
    rw [hdead.server] at hw
    cases hw
  cases hdid with
  | answered ok hans =>
    refine ⟨hdead, fun hsucc => ?_⟩
    rcases hans hsucc with hne | hpool
    · exact hne hdead.server
    · rw [hdead.pool] at hpool
      cases hpool
  | wrote ok hw hw' hgood hlock hpool => exact (hnot hw).elim
  | poisoned ok hw hw' hlock hpool => exact (hnot hw).elim
  | staged hm hserver hlock hpool =>
    refine ⟨⟨by rw [hserver, hdead.server], by rw [hpool, hdead.pool],
      by rw [hlock]; exact hdead.lock⟩, ?_⟩
    rcases hm with rfl | ⟨i, e, rfl⟩
    · exact id
    · exact nofun
  | tookPool hfree hserver hlock hpool =>
    exact ⟨⟨by rw [hserver, hdead.server], hpool, fun i r => by rw [hlock]; nofun⟩, id⟩
  | closed i hw hserver hlock hpool =>
    exact ⟨⟨hserver, by rw [hpool, hdead.pool], fun i r => by rw [hlock]; nofun⟩, nofun⟩
  | refused hw hserver hheld hpool => exact (hnot hw).elim
  | validated hw hlock hpre hs' => exact (hnot hw).elim
  | restored i faults hw hserver hlock hpool =>
    rw [hdead.server] at hw
    cases hw
  | reconnected hlock r hserver hfree => exact absurd hlock (hdead.lock _ _)

end

/-! ## Runs -/

structure Engine.Opened (k : Codec C Out) (s : Engine A C P U ι) : Prop where
  server : ∃ o db w, openWriter k o db = .ok w ∧ s.server = .serving w
  lock : s.lock = none

theorem Engine.Opened.ok (h : s.Opened k) : s.Ok k := by
  obtain ⟨⟨o, db, w, hopen, hw⟩, hlock⟩ := h
  obtain ⟨state, hload, -, -, rfl⟩ := openWriter_ok hopen
  refine ⟨fun w hw' => ?_, fun hl => ?_, fun w d ev hw' => ?_⟩
  · rw [hw] at hw'
    cases hw'
    exact ⟨rfl, hload⟩
  · rw [hlock] at hl
    cases hl
  · rw [hw] at hw'
    cases hw'

section Runs

variable [DecidableEq P] [DecidableEq U] [DecidableEq ι] {parseStr : String → Except String U}

/-- The steps of an engine whose operations fail with `E`. -/
def Goes (k : Codec C Out) (parseStr : String → Except String U) (E : Type)
    (s : Engine A C P U ι) (m : Move C ι) (s' : Engine A C P U ι) : Prop :=
  ∃ a : Act A C E Out P U ι, s.act k parseStr a = some (m, s')

/-- **Installs keep the frontier**, as long as the file that is being restored stays in place: it
never moves back, only the restore changes the writer, a restore that succeeds leaves what its
evidence says, and after one that failed half-way nothing succeeds. -/
theorem installs_keep_frontier (hk : k.Lawful) {s0 s1 s2 : Engine A C P U ι}
    {l1 l2 : List (Move C ι)} (h0 : s0.Opened k)
    (h1 : Path (fun s m s' => Goes k parseStr E s m s' ∧ Undisturbed s s') s0 l1 s1)
    (h2 : Path (fun s m s' => Goes k parseStr E s m s' ∧ Undisturbed s s') s1 l2 s2) :
    (∀ w1 w2, s1.server.writer = some w1 → s2.server.writer = some w2 →
      Behind w1.state.lastApplied w2.state.lastApplied) ∧
    ((∃ i e, .restored i (.error e) ∈ l1) → ∀ m ∈ l2, ¬ m.Succeeds) ∧
    ∀ m s3, Goes k parseStr E s2 m s3 →
      ((m = .quiet ∨ ∃ i r, m = .installed i r) → s3.server.writer = s2.server.writer) ∧
      ∀ i ev, m = .restored i (.ok ev) → ∃ w, s3.server = .serving w ∧
        loadState k w.conn.file = .ok w.state ∧ w.state.snapshotId = some ev.snapshotId ∧
        w.state.snapshotEvidence ev.snapshotId ev.sqlitePageSize ev.sqliteBytes
          ev.sqliteSha256 = ev := by
  -- The first part of the run.
  have hfirst : s1.Ok k ∧ ((∃ i e, .restored i (.error e) ∈ l1) → s1.Dead) := by
    refine h1.invariant (I := fun l s => s.Ok k ∧ ((∃ i e, .restored i (.error e) ∈ l) → s.Dead))
      ⟨h0.ok, by simp⟩ ?_
    rintro l s m s' ⟨hok, hdead⟩ ⟨⟨a, hact⟩, hu⟩
    have hdid := act_did hk hact
    refine ⟨hdid.ok hok hu, ?_⟩
    rintro ⟨i, e, hmem⟩
    rcases mem_append.mp hmem with hmem | hmem
    · exact (hdid.dead (hdead ⟨i, e, hmem⟩)).1
    · exact hdid.halfway hok (mem_singleton.mp hmem).symm
  obtain ⟨hok1, hdead1⟩ := hfirst
  -- The second part.
  have hsecond : s2.Ok k ∧ (∀ w2, s2.server.writer = some w2 →
      ∃ w1, s1.server.writer = some w1 ∧ Behind w1.state.lastApplied w2.state.lastApplied) ∧
      (s1.Dead → s2.Dead ∧ ∀ m ∈ l2, ¬ m.Succeeds) := by
    refine h2.invariant (I := fun l s => s.Ok k ∧ (∀ w2, s.server.writer = some w2 →
      ∃ w1, s1.server.writer = some w1 ∧ Behind w1.state.lastApplied w2.state.lastApplied) ∧
      (s1.Dead → s.Dead ∧ ∀ m ∈ l, ¬ m.Succeeds))
      ⟨hok1, fun w hw => ⟨w, hw, Behind.refl _⟩, fun hd => ⟨hd, by simp⟩⟩ ?_
    rintro l s m s' ⟨hok, hbehind, hdead⟩ ⟨⟨a, hact⟩, hu⟩
    have hdid := act_did hk hact
    refine ⟨hdid.ok hok hu, fun w' hw' => ?_, fun hd => ?_⟩
    · obtain ⟨w, hw, hlater⟩ := hdid.forward hok hw'
      obtain ⟨w1, hw1, hearlier⟩ := hbehind w hw
      exact ⟨w1, hw1, hearlier.trans hlater⟩
    · obtain ⟨hd', hnone⟩ := hdead hd
      obtain ⟨hd'', hm⟩ := hdid.dead hd'
      refine ⟨hd'', fun m' hm' => ?_⟩
      rcases mem_append.mp hm' with hm' | hm'
      · exact hnone m' hm'
      · rw [mem_singleton.mp hm']
        exact hm
  obtain ⟨hok2, hbehind, hdead⟩ := hsecond
  refine ⟨fun w1 w2 hw1 hw2 => ?_, fun hhalf => (hdead (hdead1 hhalf)).2, fun m s3 hstep => ?_⟩
  · obtain ⟨w, hw, h⟩ := hbehind w2 hw2
    obtain rfl := Option.some.inj (hw.symm.trans hw1)
    exact h
  · obtain ⟨a, hact⟩ := hstep
    exact ⟨(act_did hk hact).untouched, fun i ev hm => (act_did hk hact).agrees hok2 hm⟩

def Engine.run (k : Codec C Out) (parseStr : String → Except String U) (s : Engine A C P U ι) :
    List (Act A C E Out P U ι) → Option (List (Move C ι) × Engine A C P U ι)
  | [] => some ([], s)
  | a :: as =>
    match s.act k parseStr a with
    | none => none
    | some (m, t) => (t.run k parseStr as).map fun r => (m :: r.1, r.2)

theorem Engine.run_path {as : List (Act A C E Out P U ι)} {ms : List (Move C ι)}
    (h : s.run k parseStr as = some (ms, s')) : Path (Goes k parseStr E) s ms s' := by
  induction as generalizing s ms with
  | nil =>
    cases h
    exact .nil
  | cons a as ih =>
    rw [Engine.run] at h
    split at h
    · cases h
    · next m t hact =>
      obtain ⟨⟨ms', u⟩, hrest, hr⟩ := Option.map_eq_some_iff.mp h
      cases hr
      exact (Path.single ⟨a, hact⟩).trans (ih hrest)

end Runs

/-! ## Two callers and two spellings of an id -/

def countedAt (n : ℕ) (snapshotId : String) : Writer ℕ UInt8 :=
  snapshotted (newCounter keepOne n) snapshotId

/-- Two staged snapshots. The id of the second is that of the first in capitals. -/
def twoCallers : Engine ℕ UInt8 Bool Unit Bool where
  files
    | .path b => some (if b then fileOf (countedAt 0 "a") else fileOf (countedAt 9 "A"))
    | _ => none
  server := .serving (newCounter keepOne 0)
  pool := true
  lock := none
  installs _ := none

/-- The second renames its file into place while the writer is about to restore that of the first.
-/
def replaced : List (Act ℕ UInt8 String UInt8 Bool Unit Bool) :=
  [.install true (.path true) (evidenceOf (countedAt 0 "a") "a"),
    .install false (.path false) (evidenceOf (countedAt 9 "A") "A"),
    .stage true none, .stage false none, .stage true none, .stage false none,
    .stage true none, .stage true none, .stage true none, .takePool true, .preflight none,
    .stage false none, .stage false none, .stage false none, .restore {}]

/-- A snapshot of a counter that is at 6. -/
def atSix : Writer ℕ UInt8 := snapshotted (counted (counted (newCounter keepOne 0) 5 0) 6 0) "a"

def oneSnapshot : Engine ℕ UInt8 Bool Unit Bool :=
  { twoCallers with files := fun
      | .path true => some (fileOf atSix)
      | _ => none }

def Calm (s : Engine ℕ UInt8 Bool Unit Bool) (m : Move UInt8 Bool) (s' : Engine ℕ UInt8 Bool Unit Bool) :
    Prop := Goes oneByte (fun _ => .ok ()) String s m s' ∧ Undisturbed s s'

/-- The other caller applies an entry while the snapshot is staged, asks for an install while it is
being restored, and applies an entry after that. -/
structure RestoresSix (s1 s2 : Engine ℕ UInt8 Bool Unit Bool) (w1 w2 : Writer ℕ UInt8) : Prop where
  staged : Path Calm oneSnapshot (.quiet :: .quiet :: .request true :: replicate 6 .quiet) s1
  restored : Path Calm s1 [.quiet, .restored true (.ok (evidenceOf atSix "a")),
    .installed true (.ok (evidenceOf atSix "a")), .request true] s2
  restoring : s1.server = .restoring w1 (.snapshot ()) (evidenceOf atSix "a")
  serving : s2.server = .serving w2
  before : w1.state.lastApplied.map (·.commit.sequence) = some 5
  after : w2.state.lastApplied.map (·.commit.sequence) = some 7

theorem installs_keep_frontier_restored : ∃ s1 s2 w1 w2, RestoresSix s1 s2 w1 w2 ∧
    Behind w1.state.lastApplied w2.state.lastApplied := by
  have hopen : openWriter oneByte keepOne (newCounter keepOne 0).conn.file =
      .ok (newCounter keepOne 0) := by rfl
  have hserves : ∀ {s s' : Engine ℕ UInt8 Bool Unit Bool} {w}, s.server = .serving w →
      Undisturbed s s' := fun hw _ _ _ h => nomatch hw.symm.trans h
  obtain ⟨s1, s2, w1, w2, h⟩ : ∃ s1 s2 w1 w2, RestoresSix s1 s2 w1 w2 :=
    ⟨_, _, _, _,
      ((((((((Path.single ⟨⟨.install true (.path true) (evidenceOf atSix "a"), rfl⟩, hserves rfl⟩).snoc
        ⟨⟨.stage true none, rfl⟩, hserves rfl⟩).snoc
        ⟨⟨.apply {} (commitAt 5 0) count, rfl⟩, hserves rfl⟩).snoc
        ⟨⟨.stage true none, rfl⟩, hserves rfl⟩).snoc ⟨⟨.stage true none, rfl⟩, hserves rfl⟩).snoc
        ⟨⟨.stage true none, rfl⟩, hserves rfl⟩).snoc ⟨⟨.stage true none, rfl⟩, hserves rfl⟩).snoc
        ⟨⟨.takePool true, rfl⟩, hserves rfl⟩).snoc ⟨⟨.preflight none, rfl⟩, hserves rfl⟩,
      (((Path.single ⟨⟨.install false (.path false) (evidenceOf atSix "a"), rfl⟩,
        fun _ _ _ _ => rfl⟩).snoc ⟨⟨.restore {}, rfl⟩, fun _ _ _ _ => rfl⟩).snoc
        ⟨⟨.reconnect none, rfl⟩, hserves rfl⟩).snoc
        ⟨⟨.apply {} (commitAt 7 0) count, rfl⟩, hserves rfl⟩, rfl, rfl, rfl, rfl⟩
  refine ⟨s1, s2, w1, w2, h, (installs_keep_frontier oneByte_lawful ⟨⟨keepOne, _, _, hopen, rfl⟩, rfl⟩
    h.staged h.restored).1 w1 w2 ?_ ?_⟩
  · rw [h.restoring]
    rfl
  · rw [h.serving]
    rfl

/-- **A restore succeeds with the evidence of one snapshot and leaves the other one.** -/
theorem restored_other_snapshot : ∃ ms s w,
    Path (Goes oneByte (fun _ => .ok ()) String) twoCallers
      (ms ++ [.restored true (.ok (evidenceOf (countedAt 0 "a") "a"))]) s ∧
    s.server = .serving w ∧ w.state.snapshotId = some "A" ∧ w.conn.file.app = 9 ∧
    (evidenceOf (countedAt 0 "a") "a").snapshotId = "a" ∧ (countedAt 0 "a").conn.file.app = 0 := by
  have hrun : ∃ ms s w, twoCallers.run oneByte (fun _ => .ok ()) replaced =
      some (ms ++ [.restored true (.ok (evidenceOf (countedAt 0 "a") "a"))], s) ∧
      s.server = .serving w ∧ w.state.snapshotId = some "A" ∧ w.conn.file.app = 9 :=
    ⟨replicate 14 .quiet, _, _, rfl, rfl, rfl, rfl⟩
  obtain ⟨ms, s, w, hrun, hserver, hid, happ⟩ := hrun
  exact ⟨ms, s, w, Engine.run_path hrun, hserver, hid, happ, rfl, rfl⟩

end Hiqlite.External
