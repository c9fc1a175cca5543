import Hiqlite.External.Once

/-!
# G9 — installing a snapshot

`install_snapshot` validates the file of the caller, copies it to the directory of snapshots under its
id, and has the writer restore it from there.

* **`installed_serves_same`**: an install that nobody disturbs; `install_conflict`.
-/

namespace Hiqlite.External

open Function


variable {A C E Out P U : Type}

/-- A file of a caller, a snapshot in the directory, or one on its way there. -/
inductive Location (P U : Type)
  | path (p : P)
  | snapshot (u : U)
  /-- `<uuid>.incoming` -/
  | incoming (u : U)
  deriving DecidableEq

abbrev Files (A P U : Type) := Location P U → Option (SnapshotFile A)

/-- The part of `install_snapshot` that comes before the writer. -/
inductive Staging (C P U : Type)
  | source (path : Location P U) (evidence : ExternalSnapshotEvidence C)
  | tryExists (path : Location P U) (evidence : ExternalSnapshotEvidence C) (id : U)
  | present (evidence : ExternalSnapshotEvidence C) (id : U)
  | clear (path : Location P U) (evidence : ExternalSnapshotEvidence C) (id : U)
  | copy (path : Location P U) (evidence : ExternalSnapshotEvidence C) (id : U)
  | rename (evidence : ExternalSnapshotEvidence C) (id : U)
  | ready (destination : Location P U) (evidence : ExternalSnapshotEvidence C)
  | failed (e : ExternalError)

section Stage

variable [DecidableEq C] [DecidableEq P] [DecidableEq U]

/-- Go on to the next await. The ids of snapshots are read by `parseStr`. -/
def Staging.step (k : Codec C Out) (parseStr : String → Except String U) :
    Files A P U × Staging C P U → Files A P U × Staging C P U
  | (files, .source path evidence) =>
    match validateSnapshotFile k (files path) evidence, parseStr evidence.snapshotId with
    | .error e, _ => (files, .failed e)
    | .ok _, .error m => (files, .failed (.snapshotMismatch m))
    | .ok _, .ok id =>
      if Location.snapshot id = path then (files, .ready path evidence)
      else (files, .tryExists path evidence id)
  | (files, .tryExists path evidence id) =>
    if (files (.snapshot id)).isSome then (files, .present evidence id)
    else (files, .clear path evidence id)
  | (files, .present evidence id) =>
    match validateSnapshotFile k (files (.snapshot id)) evidence with
    | .error e => (files, .failed e)
    | .ok _ => (files, .ready (.snapshot id) evidence)
  | (files, .clear path evidence id) =>
    (update files (.incoming id) none, .copy path evidence id)
  | (files, .copy path evidence id) =>
    match files path with
    | none => (files, .failed (.io "No such file or directory"))
    | some file =>
      (update files (.incoming id) (some { file with regular := true }),
        .rename evidence id)
  | (files, .rename evidence id) =>
    match files (.incoming id) with
    | none => (files, .failed (.io "No such file or directory"))
    | some file =>
      (update (update files (.snapshot id) (some file)) (.incoming id) none,
        .ready (.snapshot id) evidence)
  | (files, .ready destination evidence) => (files, .ready destination evidence)
  | (files, .failed e) => (files, .failed e)

/-- `install_snapshot` when nobody else changes the files. -/
def installSnapshot (k : Codec C Out) (parseStr : String → Except String U) (files : Files A P U)
    (path : Location P U) (evidence : ExternalSnapshotEvidence C) (w : Writer A C) : Restored A C :=
  match (Staging.step k parseStr)^[5] (files, .source path evidence) with
  | (files, .ready destination evidence) =>
    restoreRequest k {} (files destination) (files destination) evidence w
  | (_, .failed e) => ⟨.error e, none, w⟩
  | _ => ⟨.error .writerStopped, none, w⟩

end Stage

/-! ## What is accepted -/

/-- **The snapshot is not behind**: it is ahead of the engine, or at the same entry. -/
def Behind (live incoming : Option (ExternalApplied C)) : Prop :=
  ∀ l, live = some l →
    ∃ i, incoming = some i ∧ (l.commit.sequence.toNat < i.commit.sequence.toNat ∨ i = l)

theorem Behind.refl (a : Option (ExternalApplied C)) : Behind a a :=
  fun l hl => ⟨l, hl, .inr rfl⟩

theorem Behind.trans {a b c : Option (ExternalApplied C)} (hab : Behind a b) (hbc : Behind b c) :
    Behind a c := by
  intro x hx
  obtain ⟨y, hy, hxy⟩ := hab x hx
  obtain ⟨z, hz, hyz⟩ := hbc y hy
  refine ⟨z, hz, ?_⟩
  rcases hxy with hxy | rfl
  · rcases hyz with hyz | rfl
    · exact .inl (hxy.trans hyz)
    · exact .inl hxy
  · exact hyz

variable [DecidableEq C] {k : Codec C Out}

theorem rejectStaleSnapshot_iff {live incoming : Option (ExternalApplied C)} :
    rejectStaleSnapshot live incoming = .ok () ↔ Behind live incoming := by
  refine ⟨fun h l hl => rejectStaleSnapshot_ok h hl, fun h => ?_⟩
  cases live with
  | none => rfl
  | some l =>
    obtain ⟨i, rfl, hi⟩ := h l rfl
    unfold rejectStaleSnapshot
    dsimp only
    rcases hi with hlt | rfl
    · rw [if_neg (by rw [UInt64.lt_iff_toNat_lt]; omega), if_neg]
      rintro ⟨heq, -⟩
      rw [heq] at hlt
      omega
    · rw [if_neg (by rw [UInt64.lt_iff_toNat_lt]; omega), if_neg (fun h => h.2 rfl)]

variable {state : StoredState C}

omit [DecidableEq C] in
theorem validateSnapshotCompatibility_evidence {live : StoredState C} (id : String) (page : UInt32)
    (bytes : UInt64) (sha : Sha256Digest) (happ : state.applicationId = live.applicationId)
    (hinit : state.initialSequence = live.initialSequence)
    (hschema : state.initialStateSchema = live.initialStateSchema)
    (hcodec : state.receiptCodec = live.receiptCodec)
    (hret : state.receiptRetention = live.receiptRetention)
    (hmax : state.maxReceiptBytes = live.maxReceiptBytes) :
    validateSnapshotCompatibility live (state.snapshotEvidence id page bytes sha) = .ok () := by
  unfold validateSnapshotCompatibility
  simp [StoredState.snapshotEvidence, ensure_of, happ, hinit, hschema, hcodec, hret, hmax]

theorem validateSnapshotFile_copy {file : SnapshotFile A} {id : String} (hreg : file.regular = true)
    (hcheck : file.quickCheck = .ok "ok") (hload : loadState k file.db = .ok state)
    (hval : validateReceipts k file.db state = .ok ()) (hid : state.snapshotId = some id) :
    validateSnapshotFile k (some file)
      (state.snapshotEvidence id file.pageSize file.bytes file.sha256) = .ok () := by
  unfold validateSnapshotFile
  simp only [StoredState.snapshotEvidence, hreg, hcheck, hload, hval, hid, ensure_of, ok_bind,
    Except.mapError]

/-! ## On the way to the writer -/

section Staged

variable [DecidableEq P] [DecidableEq U] {parseStr : String → Except String U}
  {files : Files A P U} {path destination : Location P U} {evidence : ExternalSnapshotEvidence C}
  {file : SnapshotFile A} {id : U}

theorem staged_copy (hfile : files path = some file) (hreg : file.regular = true)
    (hpath : path ≠ .incoming id) : ∃ files' : Files A P U,
      files' (.snapshot id) = some file ∧
      (Staging.step k parseStr)^[3] (files, .clear path evidence id) =
        (files', .ready (.snapshot id) evidence) := by
  have hsame : { file with regular := true } = file := by rw [← hreg]
  let copied := update (update files (.incoming id) none) (.incoming id) (some file)
  refine ⟨update (update copied (.snapshot id) (some file)) (.incoming id) none,
    ?_, ?_⟩
  · rw [update_of_ne (by simp), update_self]
  · simp only [iterate_succ, iterate_zero, comp_apply, id_eq]
    rw [Staging.step, Staging.step]
    simp only [update_of_ne hpath, hfile, hsame]
    rw [Staging.step]
    simp only [update_self, copied]

theorem staged (hval : validateSnapshotFile k (some file) evidence = .ok ())
    (hid : parseStr evidence.snapshotId = .ok id) (hfile : files path = some file)
    (hreg : file.regular = true) (hpath : path ≠ .incoming id)
    (hthere : ∀ f, files (.snapshot id) = some f → f = file) : ∃ files' : Files A P U,
      files' (.snapshot id) = some file ∧
      (Staging.step k parseStr)^[5] (files, .source path evidence) =
        (files', .ready (.snapshot id) evidence) := by
  rw [iterate_succ_apply, Staging.step]
  simp only [hfile, hval, hid]
  split_ifs with hplace
  · subst hplace
    exact ⟨files, hfile, rfl⟩
  rw [iterate_succ_apply, Staging.step]
  cases hdest : files (.snapshot id) with
  | none =>
    simp only [Option.isSome_none, Bool.false_eq_true, if_false]
    exact staged_copy hfile hreg hpath
  | some f =>
    obtain rfl := hthere f hdest
    simp only [Option.isSome_some, if_true]
    rw [iterate_succ_apply, Staging.step]
    simp only [hdest, hval]
    exact ⟨files, hdest, rfl⟩

end Staged

/-! ## After an install -/

theorem restoreRequest_copy {file : SnapshotFile A} {id : String} {w : Writer A C}
    (hcompat : validateSnapshotCompatibility w.state
      (state.snapshotEvidence id file.pageSize file.bytes file.sha256) = .ok ())
    (hbehind : Behind w.state.lastApplied state.lastApplied)
    (hfile : validateSnapshotFile k (some file)
      (state.snapshotEvidence id file.pageSize file.bytes file.sha256) = .ok ())
    (hload : loadState k file.db = .ok state) (hval : validateReceipts k file.db state = .ok ()) :
    restoreRequest k {} (some file) (some file)
        (state.snapshotEvidence id file.pageSize file.bytes file.sha256) w =
      ⟨.ok (state.snapshotEvidence id file.pageSize file.bytes file.sha256), none,
        ⟨⟨file.db, none⟩, state⟩⟩ := by
  have hstale : rejectStaleSnapshot w.state.lastApplied
      (state.snapshotEvidence id file.pageSize file.bytes file.sha256).checkpoint = .ok () :=
    rejectStaleSnapshot_iff.mpr hbehind
  have hlive : restoreLive k {} (some file)
      (state.snapshotEvidence id file.pageSize file.bytes file.sha256) w =
        (.ok (state.snapshotEvidence id file.pageSize file.bytes file.sha256),
          ⟨⟨file.db, none⟩, state⟩) := by
    simp only [restoreLive, source, Exec.unwrap_some, Exec.pure_bind, Exec.modify_bind, hload, hval,
      Exec.lift_ok, permit, Except.mapError]
    simp [StoredState.snapshotEvidence, ensure_of]
  simp only [restoreRequest, preflight, restoreReply, hcompat, hstale, hfile, ok_bind, hlive]

inductive Request (A C E Out : Type)
  | apply (faults : Faults) (commit : ExternalCommit C) (op : Operation A E Out)
  | advance (faults : Faults) (commit : ExternalCommit C)

def Node.ask (k : Codec C Out) : Node A C → Request A C E Out → Answer E Out × Node A C
  | .running w, .apply faults commit op =>
    let r := applyCommitted k faults commit op w
    (.apply r.result, .after r.poison r.writer)
  | .running w, .advance faults commit =>
    let r := advanceCommitted k faults commit w
    (.advance r.result, .after r.poison r.writer)
  | n, .apply _ _ _ => (.apply (.error (.engine .writerClosed)), n)
  | n, .advance _ _ => (.advance (.error .writerClosed), n)

/-- The answers to some calls, and the tables after each of them. -/
def Node.serve (k : Codec C Out) (n : Node A C) : List (Request A C E Out) → List (Answer E Out × A)
  | [] => []
  | r :: rs => ((n.ask k r).1, (n.ask k r).2.db.app) :: (n.ask k r).2.serve k rs

/-- **An engine with an installed snapshot answers like the one that has built it.** The engine `wB`
has the options of `wA` and is not ahead: where it is at the same sequence, it is at the same entry.
Of the file it is assumed that it is a copy of the database and that the names of the snapshot in the
directory of `wB` are not those of something else. -/
theorem installed_serves_same [DecidableEq P] [DecidableEq U] {o : ExternalSqliteOptions}
    {hA hB : List (Entry k)} {wA wA' wB : Writer A C} (hk : k.Lawful) (hrA : Reach k o hA wA)
    (hrB : Reach k o hB wB) {faults : SnapshotFaults} {snapshotId : String} {st : StoredState C}
    (hbuilt : snapshotRequest faults snapshotId wA = (.ok st, wA'))
    {file : SnapshotFile A} (hreg : file.regular = true) (hcheck : file.quickCheck = .ok "ok")
    (hcopy : file.db = wA'.conn.file) {parseStr : String → Except String U} {id : U}
    (hid : parseStr snapshotId = .ok id) {files : Files A P U} {path : Location P U}
    (hfile : files path = some file) (hpath : path ≠ .incoming id)
    (hthere : ∀ f, files (.snapshot id) = some f → f = file)
    (hbehind : Behind wB.state.lastApplied wA.state.lastApplied) :
    let evidence := st.snapshotEvidence snapshotId file.pageSize file.bytes file.sha256
    let installed := installSnapshot k parseStr files path evidence wB
    validateSnapshotFile k (files path) evidence = .ok () ∧ installed.result = .ok evidence ∧
      ∀ calls : List (Request A C E Out), (Node.after installed.poison installed.writer).serve k calls =
        (Node.running wA').serve k calls := by
  obtain ⟨dbB, stateB, rfl, hxB⟩ := hrB.exact hk
  obtain ⟨db, state, rfl, hx⟩ := hrA.exact hk
  -- What was built is the state of the first engine, with the id of the snapshot.
  obtain ⟨db', rfl, rfl⟩ : ∃ db', st = { state with snapshotId := some snapshotId } ∧
      wA' = ⟨⟨db', none⟩, { state with snapshotId := some snapshotId }⟩ := by
    rcases snapshotRequest_ok hx.loads faults snapshotId with ⟨e, hrun⟩ | ⟨r, db', hrun, hr, -⟩
    · rw [hrun] at hbuilt
      cases hbuilt
    · rw [hrun] at hbuilt
      obtain ⟨rfl, rfl⟩ := Prod.mk.inj hbuilt
      exact ⟨db', hr st rfl, rfl⟩
  have hx' : Exact o hA db' { state with snapshotId := some snapshotId } := by
    obtain ⟨_, _, hrun, hx'⟩ := hx.snapshot faults snapshotId
    rw [hbuilt] at hrun
    cases hrun
    exact hx'
  have hload := hx'.loads
  have hval := hx'.validateReceipts hk
  rw [← show file.db = db' from hcopy] at hload hval
  intro evidence installed
  have hvalid : validateSnapshotFile k (some file) evidence = .ok () :=
    validateSnapshotFile_copy hreg hcheck hload hval rfl
  have hcompat : validateSnapshotCompatibility stateB evidence = .ok () := by
    refine validateSnapshotCompatibility_evidence _ _ _ _ ?_ ?_ ?_ ?_ ?_ ?_ <;>
      rw [hxB.state_eq, hx'.state_eq] <;> rfl
  obtain ⟨files', hdest, hstaged⟩ := staged hvalid hid hfile hreg hpath hthere
  have hinstalled : installed = ⟨.ok evidence, none,
      ⟨⟨file.db, none⟩, { state with snapshotId := some snapshotId }⟩⟩ := by
    simp only [installed, installSnapshot, hstaged, hdest]
    exact restoreRequest_copy hcompat hbehind hvalid hload hval
  rw [hinstalled, hfile]
  refine ⟨hvalid, rfl, fun calls => ?_⟩
  rw [show file.db = db' from hcopy]
  rfl

/-! ## Two counters -/

def fileOf (w : Writer ℕ UInt8) : SnapshotFile ℕ where
  regular := true
  bytes := 4096
  sha256 := ⟨List.replicate 32 7, rfl⟩
  quickCheck := .ok "ok"
  pageSize := 4096
  db := w.conn.file

def evidenceOf (w : Writer ℕ UInt8) (snapshotId : String) : ExternalSnapshotEvidence UInt8 :=
  w.state.snapshotEvidence snapshotId (fileOf w).pageSize (fileOf w).bytes (fileOf w).sha256

def snapshotted (w : Writer ℕ UInt8) (snapshotId : String) : Writer ℕ UInt8 :=
  (snapshotRequest {} snapshotId w).2

/-- The file at `()`, and no snapshot in the directory. -/
def staging (w : Writer ℕ UInt8) : Files ℕ Unit Unit
  | .path _ => some (fileOf w)
  | _ => none

theorem newCounter_reach : Reach oneByte keepOne [] (newCounter keepOne 0) :=
  .opened 0 (by rfl) (by rfl)

def someUuid : String := "67e55044-10b1-426f-9247-bb680e5fe0c8"

/-- The engine that installs has applied the first of the two entries. -/
theorem installed_serves_same_counter :
    let b := counted (newCounter keepOne 0) 5 0
    let a := snapshotted (counted b 6 0) someUuid
    (installSnapshot oneByte (fun _ => .ok ()) (staging a) (.path ()) (evidenceOf a someUuid) b).result =
      .ok (evidenceOf a someUuid) := by
  intro b a
  have hB : Reach oneByte keepOne [entryAt 5 0 1] b :=
    newCounter_reach.applied (e := entryAt 5 0 1) _ count ⟨rfl, ⟨1, rfl, rfl⟩, rfl, by decide⟩
  have hbuilt : snapshotRequest {} someUuid (counted b 6 0) = (.ok a.state, a) := rfl
  have hid : (fun _ => .ok () : String → Except String Unit) someUuid = .ok () := rfl
  have hfile : staging a (.path ()) = some (fileOf a) := rfl
  have hbehind : Behind b.state.lastApplied (counted b 6 0).state.lastApplied := by
    intro l hl
    cases hl
    exact ⟨_, rfl, .inl (by decide)⟩
  exact (installed_serves_same (E := String) oneByte_lawful counted_reach hB hbuilt rfl rfl rfl
    hid hfile (by decide) (fun f hf => by cases hf) hbehind).2.1

/-- **A counter at the same sequence with another commit refuses the snapshot**, although it is not
ahead. -/
theorem install_conflict : let a := snapshotted (counted (newCounter keepOne 0) 5 0) "a"
    let b := counted (newCounter keepOne 0) 5 1
    b.state.lastApplied.map (fun x => x.commit.sequence) =
        a.state.lastApplied.map (fun x => x.commit.sequence) ∧
      validateSnapshotFile oneByte (some (fileOf a)) (evidenceOf a "a") = .ok () ∧
      (installSnapshot oneByte (fun _ => .ok ()) (staging a) (.path ()) (evidenceOf a "a") b).result =
        .error (.commitConflict 5) := by
  refine ⟨rfl, rfl, ?_⟩
  rfl

end Hiqlite.External
