import Hiqlite.Wal.Memo

/-!
# W25 — the reader

`reader.rs`: a thread that answers reads from a copy of the file set of its own. Before each request
it brings the copy up to date, and it keeps its read mappings and its memo.

* **`logsLoop_spec`**; **`range_read_exact`**: a range is sent as it is stored.
-/

namespace Hiqlite.Wal

open List Exec WalFile

variable [Crc]

/-- The reader thread. `sent` is what went through the channels of its requests; `none` ends an
answer. -/
structure Reader where
  wal : WalFileSet
  memo : Option LogReadMemo
  sent : List (Option (Except Error Bytes))
  dev : WalDev

abbrev ReaderM := Exec Reader Stop

structure LogState where
  lastPurgedLogId : Option Bytes
  lastLog : Option Bytes
deriving DecidableEq

namespace Reader

def new (locked : WalFileSet) (dev : WalDev) : Reader := ⟨locked.cloneNoMap, none, [], dev⟩

def sync (locked : WalFileSet) : ReaderM Unit := do
  let r ← Exec.get
  let files ← lift (WalFileSet.cloneFilesFromNoMmap r.wal.files locked.files)
  modify fun r => { r with wal := ⟨locked.active, files⟩ }

def mapped (f : WalFile) : ReaderM WalFile := fun r =>
  match openMmap (f, r.dev) with
  | (.ok _, (f, dev)) => (.ok f, { r with dev })
  | (.error _, (_, dev)) => (.error (.panic .unwrapRes), { r with dev })

/-- `ack.send(..).unwrap()` for a caller that is still there. -/
def send (l : List (Option (Except Error Bytes))) : ReaderM Unit :=
  modify fun r => { r with sent := r.sent ++ l }

/-- `read_logs` with the memo of the reader. An error leaves the memo alone. -/
def readLogs (f : WalFile) (lo hi : ℕ) : ReaderM (Except Error (List Entry)) := do
  let r ← Exec.get
  match f.readLogs r.dev.disk lo hi r.memo with
  | .ok (_, memo, buf) => do
    modify fun r => { r with memo }
    pure (.ok buf)
  | .error (.err e) => pure (.error e)
  | .error p => stop p

/-- The loop over the files, from the id `fromNext` to the id `hi`. -/
def logsLoop (hi : ℕ) : ℕ → List WalFile → ReaderM (List WalFile)
  | _, [] => pure []
  | fromNext, log :: rest =>
    if log.idUntil < fromNext then do
      let rest ← logsLoop hi fromNext rest
      pure (log :: rest)
    else do
      let log ← mapped log
      if log.idUntil < hi then
        match ← readLogs log fromNext log.idUntil with
        | .ok buf => do
          send (buf.map fun e => some (.ok e.2))
          let rest ← logsLoop hi (addU64 log.idUntil 1) rest
          pure (log.mmapDrop :: rest)
        | .error e => do
          send [some (.error e)]
          pure (log :: rest)
      else
        match ← readLogs log fromNext hi with
        | .ok buf => do
          send (buf.map fun e => some (.ok e.2))
          pure (log :: rest)
        | .error e => do
          send [some (.error e)]
          pure (log :: rest)

/-- The answer to `Action::Logs` once the copy is up to date. -/
def serveLogs (lo hi : ℕ) : ReaderM Unit := do
  let r ← Exec.get
  let files ← logsLoop hi lo r.wal.files
  modify fun r => { r with wal := { r.wal with files } }
  send [none]

def logs (locked : WalFileSet) (lo hi : ℕ) : ReaderM Unit := do
  sync locked
  serveLogs lo hi

/-- The id of the last entry. The last file has none right after a roll-over. -/
def latestLogId (files : List WalFile) : Except Stop (Option ℕ) :=
  match files.getLast? with
  | none => .error (.panic .sliceIndex)
  | some f =>
    if f.dataStart.isSome then .ok (some f.idUntil)
    else .ok (files.dropLast.getLast?.map fun f => f.idUntil)

/-- Read one entry of the file at position `i`. -/
def readAt (i id : ℕ) (release : Bool) : ReaderM (List Entry) := do
  let r ← Exec.get
  let f ← unwrap (.panic .unwrapFile) r.wal.files[i]?
  let f ← mapped f
  match ← readLogs f id id with
  | .ok buf => do
    modify fun r => { r with
      wal := { r.wal with files := r.wal.files.set i (if release then f.mmapDrop else f) } }
    pure buf
  | .error _ => stop (.panic .unwrapRes)

def readLatest (id : ℕ) : ReaderM Bytes := do
  let r ← Exec.get
  let i ← unwrap (.panic .unwrapActive) r.wal.active
  let active ← unwrap (.panic .unwrapFile) r.wal.files[i]?
  let buf ←
    if active.dataStart.isSome then readAt i id false
    else if 1 < r.wal.files.length then readAt (r.wal.files.length - 2) id true
    else pure []
  match buf with
  | e :: _ => pure e.2
  | [] => stop (.panic .sliceIndex)

/-- The answer to `Action::LogState` once the copy is up to date. -/
def serveState (metadata : Metadata) : ReaderM LogState := do
  let r ← Exec.get
  match ← lift (latestLogId r.wal.files) with
  | some id => do
    let data ← readLatest id
    pure ⟨metadata.lastPurgedLogId, some data⟩
  | none => pure ⟨metadata.lastPurgedLogId, none⟩

def logState (locked : WalFileSet) (metadata : Metadata) : ReaderM LogState := do
  sync locked
  serveState metadata

end Reader

/-! ## Files that hold a log -/

/-- A file of the reader whose header describes the records `recs` on disk. -/
structure Stores (d : WalDisk) (f : WalFile) (recs : List Entry) : Prop where
  file : ∃ ino, d.lookup f.walNo = some ino ∧ (d.inode ino).len = f.lenMax ∧
    Body (d.inode ino).bytes f.lenMax f.toHeader recs ∧ ∀ i ∈ f.mmap, i = ino
  lt : f.lenMax < 2 ^ 32

/-- The files hold the records `recs`, with ids that go on from file to file. Only the last one may
be empty. -/
structure Represents (d : WalDisk) (s : WalFileSet) (recs : List (List Entry)) : Prop where
  files : Forall₂ (Stores d) s.files recs
  chain : s.files.IsChain fun f g => g.idFrom = f.idUntil + 1
  full : ∀ r ∈ recs.dropLast, r ≠ []
  active : s.active = some (s.files.length - 1)
  ne : s.files ≠ []

namespace Reader

variable {r : Reader} {f : WalFile} {recs : List Entry} {lo hi : ℕ}

theorem mapped_ok (h : Stores r.dev.disk f recs) (hr : r.dev.Reliable) :
    ∃ ino dev, mapped f r = (.ok { f with mmap := some ino }, { r with dev }) ∧
      dev.disk = r.dev.disk ∧ dev.Reliable ∧
      ({ f with mmap := some ino } : WalFile).Readable dev.disk ino ∧
      Body (dev.disk.inode ino).bytes f.lenMax f.toHeader recs ∧
      dev.disk.lookup f.walNo = some ino := by
  obtain ⟨ino, hlook, hlen, hb, hmap⟩ := h.file
  cases hm : f.mmap with
  | some i =>
    obtain rfl := hmap i hm
    refine ⟨i, r.dev, ?_, rfl, hr, ⟨rfl, hlen⟩, hb, hlook⟩
    have hf : ({ f with mmap := some i } : WalFile) = f := by rw [← hm]
    rw [hf]
    simp [mapped, openMmap, hm]
  | none =>
    refine ⟨ino, r.dev.tick, ?_, rfl, hr, ⟨rfl, hlen⟩, hb, hlook⟩
    have hopen : openMmap (f, r.dev) = (.ok (), ({ f with mmap := some ino }, r.dev.tick)) := by
      refine eq_ok_of_wp ((wp_openMmap hlook).mpr ?_)
      rw [hm, Option.isSome_none, if_neg (by simp), if_neg (by rw [hr]; simp)]
      exact ⟨rfl, rfl⟩
    rw [mapped, hopen]

theorem readLogs_ok {ino s : ℕ} (hread : f.Readable r.dev.disk ino) (hlt : f.lenMax < 2 ^ 32)
    (hs : Holds (r.dev.disk.inode ino).bytes f.lenMax f.toHeader s recs)
    (hm : ∀ m ∈ r.memo, Recalls m f recs) (h1 : f.idFrom ≤ lo) (h2 : lo ≤ hi)
    (h3 : hi ≤ f.idUntil) :
    ∃ e, readLogs f lo hi r = (.ok (.ok (purge lo (truncate (hi + 1) recs))),
      { r with memo := some ⟨f.walNo, f.idFrom, hi, e⟩ }) := by
  have heq := Recalls.readLogs hread hlt hs hm h1 h2 h3
  rw [hread.readLogs_holds hlt hs h1 h2 h3] at heq
  exact ⟨_, by rw [readLogs, get_bind, heq]; rfl⟩

def Minds (memo : Option LogReadMemo) (files : List WalFile) (recs : List (List Entry)) : Prop :=
  ∀ m ∈ memo, ∀ p ∈ files.zip recs, Recalls m p.1 p.2

variable {rss : List (List Entry)}

theorem idFrom_lt_of_chain {fs : List WalFile} {d : WalDisk}
    (hf : Forall₂ (Stores d) (f :: fs) (recs :: rss))
    (hc : (f :: fs).IsChain fun f g => g.idFrom = f.idUntil + 1) {g : WalFile} (hg : g ∈ fs) :
    f.idUntil < g.idFrom := by
  induction fs generalizing f recs rss with
  | nil => cases hg
  | cons x fs ih =>
    cases hf with
    | cons hfr hrest =>
      cases hrest with
      | @cons _ rs _ rss hx hrest =>
        rw [isChain_cons_cons] at hc
        rcases mem_cons.mp hg with rfl | hg
        · omega
        · have h1 := ih (.cons hx hrest) hc.2 hg
          obtain ⟨_, -, -, hb, -⟩ := hx.file
          have h2 := hb.idFrom_le
          omega

omit [Crc] in
theorem Minds.tail {memo : Option LogReadMemo} {fs : List WalFile}
    (h : Minds memo (f :: fs) (recs :: rss)) : Minds memo fs rss :=
  fun m hm p hp => h m hm p (by rw [zip_cons_cons]; exact mem_cons_of_mem _ hp)

theorem logsLoop_spec {files : List WalFile} (hf : Forall₂ (Stores r.dev.disk) files rss)
    (hc : files.IsChain fun f g => g.idFrom = f.idUntil + 1) (hfull : ∀ x ∈ rss.dropLast, x ≠ [])
    (hr : r.dev.Reliable) (hm : Minds r.memo files rss) (hlo : ∀ f ∈ files.head?, f.idFrom ≤ lo)
    (hle : lo ≤ hi) (hhi : ∃ e ∈ rss.flatten, hi ≤ e.1) :
    ∃ files' r' es, logsLoop hi lo files r = (.ok files', r') ∧
      r'.sent = r.sent ++ es.map (fun e => some (.ok e.2)) ∧ NumFrom lo es ∧
      es.length = hi + 1 - lo ∧ ∀ e ∈ es, e ∈ rss.flatten := by
  generalize hd : r.dev.disk = d at hf
  induction hf generalizing r lo with
  | nil =>
    obtain ⟨e, he, -⟩ := hhi
    cases he
  | @cons f rs fs rss hst hrest ih =>
    obtain ⟨e, he, hhi⟩ := hhi
    rw [flatten_cons, mem_append] at he
    -- only the last file may be empty, and there is an entry at or behind `hi`
    have hne : rs ≠ [] := by
      rintro rfl
      cases rss with
      | nil => simp at he
      | cons x rss => exact hfull [] (by simp) rfl
    have hfull' : ∀ x ∈ rss.dropLast, x ≠ [] := by
      intro x hx
      cases rss with
      | nil => cases hx
      | cons y rss => exact hfull x (by rw [dropLast_cons_cons]; exact mem_cons_of_mem _ hx)
    have hnext : ∀ g ∈ fs.head?, g.idFrom = f.idUntil + 1 := by
      cases fs with
      | nil => simp
      | cons g fs =>
        rw [isChain_cons_cons] at hc
        simpa using hc.1
    have hlow := hlo f rfl
    subst hd
    obtain ⟨ino, dev, hmap, hdisk, hrel, hread, hbody, hlook⟩ := mapped_ok hst hr
    obtain ⟨s, hs⟩ := (body_of_ne_nil hne).mp hbody
    have hids := hs.ids
    have hupto : ∀ e ∈ rs, e.1 ≤ f.idUntil := fun e he => by
      have := (hs.num.mem_bounds he).2
      omega
    have htail : f.idUntil < hi → ∃ e ∈ rss.flatten, hi ≤ e.1 := fun hlt => by
      refine ⟨e, he.resolve_left fun he => ?_, hhi⟩
      have := hupto e he
      omega
    rw [logsLoop]
    by_cases h1 : f.idUntil < lo
    · obtain ⟨files', r', es, hrun, hsent, hnum, hlen, hmem⟩ := ih hc.tail hfull' hr hm.tail
        (fun g hg => by have := hnext g hg; omega) hle (htail (by omega)) rfl
      refine ⟨f :: files', r', es, ?_, hsent, hnum, hlen, fun e he => ?_⟩
      · rw [if_pos h1, bind_ok hrun]
        rfl
      · rw [flatten_cons]
        exact mem_append_right _ (hmem e he)
    rw [if_neg h1, bind_ok hmap]
    have hrecall : ∀ m ∈ r.memo, Recalls m { f with mmap := some ino } rs :=
      fun m hmem => hm m hmem (f, rs) (by simp)
    by_cases h2 : f.idUntil < hi
    · obtain ⟨z, hz⟩ := readLogs_ok (r := { r with dev }) hread hst.lt hs hrecall hlow
        (show lo ≤ f.idUntil by omega) le_rfl
      have hmax := hs.idUntil_lt hne
      rw [u64Max] at hmax
      have hstep : addU64 f.idUntil 1 = f.idUntil + 1 := addU64_of_lt (by omega)
      set buf := purge lo (truncate (f.idUntil + 1) rs)
      obtain ⟨hbn, hbl⟩ := hs.num.numFrom_range (j := lo) (i := f.idUntil + 1) hlow (by omega)
        (by omega)
      obtain ⟨files', r', es, hrun, hsent, hnum, hlen, hmem⟩ := ih
        (r := { r with
          dev
          memo := some ⟨f.walNo, f.idFrom, f.idUntil, z⟩
          sent := r.sent ++ buf.map fun e => some (.ok e.2) })
        hc.tail hfull' hrel (by
          rintro m hm' ⟨g, gs⟩ hp -
          cases hm'
          have hg := idFrom_lt_of_chain (.cons hst hrest) hc (of_mem_zip hp).1
          simp only at hg ⊢
          exact ⟨by omega, fun heq => by omega⟩) (fun g hg => (hnext g hg).le) (by omega) (htail h2)
        hdisk
      refine ⟨({ f with mmap := some ino } : WalFile).mmapDrop :: files', r', buf ++ es, ?_, ?_, ?_,
        ?_, fun e he => ?_⟩
      · rw [if_pos h2, bind_ok hz]
        simp only [hstep, send, modify_bind]
        rw [bind_ok hrun]
        rfl
      · rw [hsent, map_append, append_assoc]
      · refine numFrom_append.mpr ⟨hbn, ?_⟩
        rw [hbl]
        have : lo + (f.idUntil + 1 - lo) = f.idUntil + 1 := by omega
        rwa [this]
      · rw [length_append, hbl, hlen]
        omega
      · rw [flatten_cons, mem_append]
        rcases mem_append.mp he with he | he
        · exact .inl (mem_truncate.mp (mem_purge.mp he).1).1
        · exact .inr (hmem e he)
    · obtain ⟨z, hz⟩ := readLogs_ok (r := { r with dev }) hread hst.lt hs hrecall hlow hle
        (show hi ≤ f.idUntil by omega)
      obtain ⟨hbn, hbl⟩ := hs.num.numFrom_range (j := lo) (i := hi + 1) hlow (by omega) (by omega)
      refine ⟨{ f with mmap := some ino } :: fs, { r with
          dev
          memo := some ⟨f.walNo, f.idFrom, hi, z⟩
          sent := r.sent ++ (purge lo (truncate (hi + 1) rs)).map fun e => some (.ok e.2) },
        purge lo (truncate (hi + 1) rs), ?_, ?_, hbn, hbl, fun e he => ?_⟩
      · rw [if_neg h2, bind_ok hz]
        rfl
      · rfl
      · rw [flatten_cons]
        exact mem_append_left _ (mem_truncate.mp (mem_purge.mp he).1).1

theorem readAt_last {i : ℕ} {xs : List Entry} {x : Entry} (release : Bool)
    (hi : r.wal.files[i]? = some f) (hst : Stores r.dev.disk f (xs ++ [x])) (hr : r.dev.Reliable)
    (hm : ∀ m ∈ r.memo, Recalls m f (xs ++ [x])) :
    ∃ r', readAt i f.idUntil release r = (.ok [x], r') := by
  obtain ⟨ino, dev, hmap, -, -, hread, hbody, -⟩ := mapped_ok hst hr
  obtain ⟨s, hs⟩ := (body_of_ne_nil (by simp)).mp hbody
  have hids := hs.ids
  have hx : x.1 = f.idUntil := by
    have h1 := (numFrom_cons.mp (numFrom_append.mp hs.num).2).1
    simp only [length_append, length_singleton] at hids
    omega
  have hle : f.idFrom ≤ f.idUntil := hbody.idFrom_le
  obtain ⟨z, hz⟩ := readLogs_ok (r := { r with dev }) hread hst.lt hs hm hle le_rfl le_rfl
  have hall : truncate (f.idUntil + 1) (xs ++ [x]) = xs ++ [x] := truncate_eq_self fun e he => by
    have := (hs.num.mem_bounds he).2
    omega
  have hone : purge f.idUntil (xs ++ [x]) = [x] := by
    rw [← hx]
    exact hs.num.purge_split
  rw [hall, hone] at hz
  refine ⟨{ r with
    dev
    memo := some ⟨f.walNo, f.idFrom, f.idUntil, z⟩
    wal := { r.wal with
      files := r.wal.files.set i (if release then ({ f with mmap := some ino } : WalFile).mmapDrop
        else { f with mmap := some ino }) } }, ?_⟩
  rw [readAt, get_bind, hi, unwrap_some, pure_bind, bind_ok hmap,
    bind_ok hz]
  rfl

end Reader

theorem numFrom_flatten {d : WalDisk} {files : List WalFile} {recs : List (List Entry)}
    (hf : Forall₂ (Stores d) files recs)
    (hc : files.IsChain fun f g => g.idFrom = f.idUntil + 1) (hfull : ∀ x ∈ recs.dropLast, x ≠ []) :
    ∀ f ∈ files.head?, NumFrom f.idFrom recs.flatten := by
  induction hf with
  | nil => simp
  | @cons f rs fs rss hst hrest ih =>
    intro g hg
    cases hg
    obtain ⟨ino, -, -, hb, -⟩ := hst.file
    rw [flatten_cons]
    cases hrest with
    | nil =>
      rw [flatten_nil, append_nil]
      exact hb.num
    | @cons g rs' fs rss hst' hrest =>
      rw [isChain_cons_cons] at hc
      have hne : rs ≠ [] := hfull rs (by simp)
      obtain ⟨s, hs⟩ := (body_of_ne_nil hne).mp hb
      have hids := hs.ids
      have htail := ih hc.2 (fun x hx => hfull x (by
        rw [dropLast_cons_cons]
        exact mem_cons_of_mem _ hx)) g rfl
      have hid : f.idFrom + rs.length = g.idFrom := by omega
      refine numFrom_append.mpr ⟨hs.num, ?_⟩
      rw [hid]
      exact htail

namespace Reader

variable {r : Reader} {recs : List (List Entry)}

omit [Crc] in
theorem forall₂_concat {α β : Type} {R : α → β → Prop} {l : List α} {a : α} {u : List β}
    (h : Forall₂ R (l ++ [a]) u) : ∃ v b, u = v ++ [b] ∧ Forall₂ R l v ∧ R a b := by
  obtain ⟨v, b, rfl⟩ := (eq_nil_or_concat' u).resolve_left fun hu => by
    have := h.length_eq
    simp [hu] at this
  have hlen : l.length = v.length := by
    have := h.length_eq
    simpa using this
  have hv := forall₂_take l.length h
  have hb := forall₂_drop l.length h
  rw [take_left, hlen, take_left] at hv
  rw [drop_left, hlen, drop_left] at hb
  exact ⟨v, b, rfl, hv, by simpa using hb⟩

theorem exists_last (h : Represents r.dev.disk r.wal recs) : ∃ fs f rss rs,
    r.wal.files = fs ++ [f] ∧ recs = rss ++ [rs] ∧ Forall₂ (Stores r.dev.disk) fs rss ∧
      Stores r.dev.disk f rs := by
  have hf := h.files
  obtain ⟨fs, f, hfs⟩ := (eq_nil_or_concat' r.wal.files).resolve_left h.ne
  rw [hfs] at hf
  obtain ⟨rss, rs, rfl, hrss, hst⟩ := forall₂_concat hf
  exact ⟨fs, f, rss, rs, hfs, rfl, hrss, hst⟩

theorem getLast?_concat_of_body {d : WalDisk} {f : WalFile} {rs : List Entry} (hst : Stores d f rs)
    (hsome : f.dataStart.isSome = true) : ∃ xs x, rs = xs ++ [x] := by
  obtain ⟨ino, -, -, hb, -⟩ := hst.file
  rcases hb with ⟨-, hv⟩ | ⟨hne, -⟩
  · rw [hv.start] at hsome
    cases hsome
  · exact (eq_nil_or_concat' rs).resolve_left hne

theorem eq_nil_of_vacant {d : WalDisk} {f : WalFile} {rs : List Entry} (hst : Stores d f rs)
    (hnone : f.dataStart = none) : rs = [] := by
  obtain ⟨ino, -, -, hb, -⟩ := hst.file
  rcases hb with ⟨hnil, -⟩ | ⟨-, s, hs⟩
  · exact hnil
  · rw [hs.start] at hnone
    cases hnone

theorem serveState_spec (h : Represents r.dev.disk r.wal recs) (hr : r.dev.Reliable)
    (hm : Minds r.memo r.wal.files recs) (metadata : Metadata) : ∃ r', serveState metadata r =
      (.ok ⟨metadata.lastPurgedLogId, recs.flatten.getLast?.map Prod.snd⟩, r') := by
  obtain ⟨fs, f, rss, rs, hfs, rfl, hrss, hst⟩ := exists_last h
  have hlen : r.wal.files.length = fs.length + 1 := by rw [hfs]; simp
  have hact : r.wal.active = some fs.length := by rw [h.active, hlen]; rfl
  have hget : r.wal.files[fs.length]? = some f := by rw [hfs]; simp
  have hzip : fs.length = rss.length := hrss.length_eq
  have hmem : ∀ m ∈ r.memo, Recalls m f rs := fun m hmm => hm m hmm (f, rs) (by
    rw [hfs, zip_append hzip]
    simp)
  rw [serveState, get_bind]
  cases hd : f.dataStart with
  | some x =>
    obtain ⟨xs, x, rfl⟩ := getLast?_concat_of_body hst (by simp [hd])
    have hid : latestLogId r.wal.files = .ok (some f.idUntil) := by simp [latestLogId, hfs, hd]
    obtain ⟨r', hread⟩ := readAt_last false hget hst hr hmem
    refine ⟨r', ?_⟩
    have hlatest : readLatest f.idUntil r = (.ok x.2, r') := by
      rw [readLatest, get_bind, hact, unwrap_some, pure_bind, hget, unwrap_some,
        pure_bind, if_pos (by simp [hd]), bind_ok hread]
      rfl
    rw [hid, lift_ok, pure_bind]
    simp only
    rw [bind_ok hlatest]
    simp
  | none =>
    obtain rfl := eq_nil_of_vacant hst hd
    rcases eq_nil_or_concat' fs with rfl | ⟨gs, g, rfl⟩
    · cases hrss
      refine ⟨r, ?_⟩
      have hid : latestLogId r.wal.files = .ok none := by simp [latestLogId, hfs, hd]
      rw [hid]
      rfl
    · obtain ⟨rss, rs, rfl, hgs, hst'⟩ := forall₂_concat hrss
      have hne : rs ≠ [] := h.full rs (by simp)
      obtain ⟨xs, x, rfl⟩ := (eq_nil_or_concat' rs).resolve_left hne
      have hid : latestLogId r.wal.files = .ok (some g.idUntil) := by simp [latestLogId, hfs, hd]
      have hget' : r.wal.files[r.wal.files.length - 2]? = some g := by
        rw [hfs]
        simp
      have hmem' : ∀ m ∈ r.memo, Recalls m g (xs ++ [x]) := fun m hmm =>
        hm m hmm (g, xs ++ [x]) (by
          rw [hfs, zip_append hzip, zip_append hgs.length_eq]
          simp)
      obtain ⟨r', hread⟩ := readAt_last true hget' hst' hr hmem'
      refine ⟨r', ?_⟩
      have hlatest : readLatest g.idUntil r = (.ok x.2, r') := by
        rw [readLatest, get_bind, hact, unwrap_some, pure_bind, hget,
          unwrap_some, pure_bind, if_neg (by simp [hd]),
          if_pos (by rw [hlen]; simp), bind_ok hread]
        rfl
      rw [hid, lift_ok, pure_bind]
      simp only
      rw [bind_ok hlatest]
      simp

end Reader

/-- **A range read is exact**, wherever the files begin and end: the entries `lo` to `hi` are sent
once each and in order, and then the end marker. The state names the last entry, which has the
highest id, or none if there is no entry. -/
theorem range_read_exact {r : Reader} {recs : List (List Entry)}
    (h : Represents r.dev.disk r.wal recs) (hr : r.dev.Reliable) (hm : r.memo = none) :
    (∃ k, NumFrom k recs.flatten) ∧
    (∀ lo hi, (∃ e ∈ recs.flatten, e.1 ≤ lo) → lo ≤ hi → (∃ e ∈ recs.flatten, hi ≤ e.1) →
      ∃ r', ∃ es : List Entry, Reader.serveLogs lo hi r = (.ok (), r') ∧
        r'.sent = r.sent ++ es.map (fun e => some (.ok e.2)) ++ [none] ∧
        es.map Prod.fst = range' lo (hi + 1 - lo) ∧ ∀ e ∈ es, e ∈ recs.flatten) ∧
    ∀ metadata, ∃ r', Reader.serveState metadata r =
      (.ok ⟨metadata.lastPurgedLogId, recs.flatten.getLast?.map Prod.snd⟩, r') := by
  have hnum := numFrom_flatten h.files h.chain h.full
  have hminds : Reader.Minds r.memo r.wal.files recs := by
    rw [hm]
    exact fun m hm => by cases hm
  refine ⟨?_, fun lo hi hlo hle hhi => ?_, fun metadata => Reader.serveState_spec h hr hminds metadata⟩
  · obtain ⟨f, fs, hfs⟩ := exists_cons_of_ne_nil h.ne
    exact ⟨f.idFrom, hnum f (by rw [hfs]; rfl)⟩
  · have hfirst : ∀ f ∈ r.wal.files.head?, f.idFrom ≤ lo := fun f hf => by
      obtain ⟨e, he, hle⟩ := hlo
      exact ((hnum f hf).mem_bounds he).1.trans hle
    obtain ⟨files', r', es, hrun, hsent, hes, hlen, hmem⟩ :=
      Reader.logsLoop_spec h.files h.chain h.full hr hminds hfirst hle hhi
    refine ⟨{ r' with wal := { r'.wal with files := files' }, sent := r'.sent ++ [none] }, es, ?_, ?_,
      ?_, hmem⟩
    · rw [Reader.serveLogs, get_bind, bind_ok hrun]
      rfl
    · rw [← hsent]
    · rw [hes.map_fst, hlen]

/-- Three files, with one entry each in the first two. -/
def rolledOver : Reader where
  wal := ⟨some 2, [⟨⟨1, 1, some 32, some 49⟩, 1, minWalSize, none, none⟩,
    ⟨⟨2, 2, some 32, some 49⟩, 2, minWalSize, none, none⟩,
    ⟨⟨3, 3, none, none⟩, 3, minWalSize, none, none⟩]⟩
  memo := none
  sent := []
  dev := Dev.ofDisk ⟨fun i => ⟨minWalSize, recordAt Region.zero 32 (if i = 0 then (1, [7])
    else (2, [8]))⟩, 3, [(1, 0), (2, 1), (3, 2)], ⟨⟨none, none⟩, true⟩⟩

theorem rolledOver_represents :
    Represents rolledOver.dev.disk rolledOver.wal [[(1, [7])], [(2, [8])], []] where
  files := .cons ⟨⟨0, rfl, rfl, (body_of_ne_nil (by simp)).mpr ⟨32, rfl, rfl, le_rfl, by decide,
      ⟨recAt_recordAt _ _ _, trivial⟩, ⟨rfl, trivial⟩, rfl, by decide⟩, nofun⟩, by decide⟩
    (.cons ⟨⟨1, rfl, rfl, (body_of_ne_nil (by simp)).mpr ⟨32, rfl, rfl, le_rfl, by decide,
      ⟨recAt_recordAt _ _ _, trivial⟩, ⟨rfl, trivial⟩, rfl, by decide⟩, nofun⟩, by decide⟩
    (.cons ⟨⟨2, rfl, rfl, body_nil.mpr ⟨rfl, rfl, rfl, by decide⟩, nofun⟩, by decide⟩ .nil))
  chain := by simp [rolledOver]
  full := by simp
  active := rfl
  ne := by simp [rolledOver]

omit [Crc] in
theorem range_read_exact_rolledOver : let := cksum
    (∃ r', ∃ es : List Entry, Reader.serveLogs 1 2 rolledOver = (.ok (), r') ∧
      r'.sent = es.map (fun e => some (.ok e.2)) ++ [none] ∧ es.map Prod.fst = [1, 2]) ∧
    ∃ r', Reader.serveState ⟨none, none⟩ rolledOver = (.ok ⟨none, some [8]⟩, r') := by
  intro _
  obtain ⟨-, hlogs, hstate⟩ := range_read_exact rolledOver_represents rfl rfl
  obtain ⟨r', es, hrun, hsent, hids, -⟩ := hlogs 1 2 ⟨(1, [7]), by simp, le_rfl⟩ (by decide)
    ⟨(2, [8]), by simp, le_rfl⟩
  exact ⟨⟨r', es, hrun, hsent, hids⟩, hstate ⟨none, none⟩⟩

end Hiqlite.Wal
