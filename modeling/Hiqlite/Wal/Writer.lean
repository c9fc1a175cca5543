import Hiqlite.Wal.Set

/-!
# W4 — the writer

`writer.rs`: the thread that owns the files and works off one action after the other, and
`LogStore::start`, which opens the files for it.
-/

namespace Hiqlite.Wal

open Exec WalFile WalFileSet


inductive LogSync where
  | immediate
  | immediateAsync
  | intervalMillis (ms : ℕ)
deriving DecidableEq

/-- How a writer is started and compiled. `read_from_file` asserts that a file is shorter than
`u32::MAX`. -/
structure Cfg where
  walSize : ℕ
  walSize_lt : walSize < u32Max
  sync : LogSync
  autoHeal : Bool
  oversizedEntryError : Bool

/-- `writer::Action`, with the entries a batch delivers. -/
inductive Action where
  | append (entries : List Entry)
  | remove (idFrom idUntil : ℕ) (lastLog : Option Bytes)
  | vote (value : Bytes)
  | sync

/-- What the writer answers: the ack, and the result for the callback of a batch. -/
structure Reply where
  ack : Except Error Unit
  callback : Option (Except Error Unit)

/-- The state of the writer loop; `locked` is the set that is published to the readers. -/
structure Writer where
  wal : WalFileSet
  locked : WalFileSet
  metadata : Metadata
  isDirty : Bool
  dev : WalDev

/-- A computation of the writer. An error that stops it ends the loop. -/
abbrev WriterM := Exec Writer Stop

namespace Writer

variable {α : Type}

def onWal (x : SetM α) : WriterM α :=
  zoom (fun w => (w.wal, w.dev)) (fun s w => { w with wal := s.1, dev := s.2 }) x

def note (n : Note) : WriterM Unit := modify fun w => { w with dev := w.dev.emit (.note n) }

def flushBlocking : WriterM Unit := do
  let w ← Exec.get
  if w.isDirty then do
    onWal (onActive do
      updateHeader
      flush)
    modify fun w => { w with isDirty := false }
  else pure ()

/-- `Metadata::write`: the new file replaces the old one at once, or not at all. -/
def metadataWrite : WriterM Unit := do
  let w ← Exec.get
  zoom Writer.dev (fun d w => { w with dev := d })
    (Dev.sys (.err (.io .other)) (.small { w.dev.disk.small with metaFile := w.metadata }))

def publishFiles : WriterM Unit := do
  let w ← Exec.get
  let files ← lift (cloneFilesFromNoMmap w.locked.files w.wal.files)
  modify fun w => { w with locked := ⟨w.wal.active, files⟩ }
  note (.publish files)

def publishActive : WriterM Unit := do
  let w ← Exec.get
  let i ← unwrap (.panic .unwrapActive) w.wal.active
  let f ← unwrap (.panic .unwrapFile) w.wal.files[i]?
  let j ← unwrap (.panic .unwrapActive) w.locked.active
  let g ← unwrap (.panic .unwrapFile) w.locked.files[j]?
  let files := w.locked.files.set j (g.cloneFromNoMmap f)
  modify fun w => { w with locked := { w.locked with files := files } }
  note (.publish files)

def activeFile : WriterM WalFile := do
  let w ← Exec.get
  let i ← unwrap (.panic .unwrapActive) w.wal.active
  unwrap (.panic .unwrapFile) w.wal.files[i]?

def rollOver (c : Cfg) : WriterM Unit := do
  onWal (WalFileSet.rollOver c.walSize)
  publishFiles

/-- The result of a computation whose error is reported and not fatal. -/
def reported (x : WriterM Unit) : WriterM (Except Error Unit) := do
  match ← attempt x with
  | .ok _ => pure (.ok ())
  | .error (.err e) => pure (.error e)
  | .error p => stop p

def dataLenLimit (c : Cfg) : ℕ := c.walSize - offsetLogs - 2

def oversizedMsg (c : Cfg) (len : ℕ) : String :=
  "`data` length must not exceed `wal_size` -> data length is " ++ toString len ++
    " vs wal_size (without header) is " ++ toString (dataLenLimit c)

def makeRoom (c : Cfg) (len : ℕ) : WriterM Unit := do
  let f ← activeFile
  if f.hasSpace len then pure () else rollOver c

variable [Crc]

def appendEntries (c : Cfg) : List Entry → WriterM (Except Error Unit)
  | [] => pure (.ok ())
  | (id, bytes) :: es =>
    if bytes.length > dataLenLimit c then
      if c.oversizedEntryError then
        pure (.error (.walSizeExceeded (oversizedMsg c bytes.length)))
      else stop (.panic (.oversizedEntry (oversizedMsg c bytes.length)))
    else do
      makeRoom c bytes.length
      match ← reported (onWal (onActive (appendLog id bytes))) with
      | .ok _ => appendEntries c es
      | .error e => pure (.error e)

/-- What `Action::Append` does for durability before it calls back. -/
def syncBatch (c : Cfg) : WriterM (Except Error Unit) :=
  match c.sync with
  | .immediate => reported flushBlocking
  | .immediateAsync => reported (onWal (onActive flushAsync))
  | .intervalMillis _ => pure (.ok ())

def callback (entries : List Entry) (res : Except Error Unit) : WriterM Unit :=
  match res with
  | .ok _ => note (.callback entries)
  | .error _ => pure ()

def rollAhead (c : Cfg) : WriterM Unit := do
  let f ← activeFile
  if f.spaceLeft < 4 * 1024 then rollOver c else pure ()

def append (c : Cfg) (entries : List Entry) : WriterM Reply := do
  let res ← appendEntries c entries
  publishActive
  modify fun w => { w with isDirty := true }
  let resSync ← syncBatch c
  callback entries (resSync.bind fun _ => res)
  rollAhead c
  pure ⟨res, some (resSync.bind fun _ => res)⟩

def persistPurged (lastLog : Option Bytes) : WriterM Unit :=
  if lastLog.isSome then do
    modify fun w => { w with metadata := { w.metadata with lastPurgedLogId := lastLog } }
    metadataWrite
  else pure ()

def revertPurged (lastLog previous : Option Bytes) : WriterM Unit :=
  if lastLog.isSome then do
    modify fun w => { w with metadata := { w.metadata with lastPurgedLogId := previous } }
    let _ ← attempt metadataWrite
    pure ()
  else pure ()

def remove (c : Cfg) (idFrom idUntil : ℕ) (lastLog : Option Bytes) : WriterM Reply := do
  note (.remove idFrom idUntil)
  match ← reported flushBlocking with
  | .error e => pure ⟨.error e, none⟩
  | .ok _ => do
    let w ← Exec.get
    persistPurged lastLog
    match ← reported (onWal (shiftDeleteLogs idFrom idUntil c.walSize)) with
    | .ok _ => do
      publishFiles
      pure ⟨.ok (), none⟩
    | .error e => do
      revertPurged lastLog w.metadata.lastPurgedLogId
      pure ⟨.error e, none⟩

def vote (value : Bytes) : WriterM Reply := do
  flushBlocking
  modify fun w => { w with metadata := { w.metadata with vote := some value } }
  let res ← reported metadataWrite
  pure ⟨res, none⟩

def sync : WriterM Reply := do
  flushBlocking
  pure ⟨.ok (), none⟩

/-- **One iteration of the loop in `run`.** -/
def step (c : Cfg) : Action → WriterM Reply
  | .append entries => append c entries
  | .remove idFrom idUntil lastLog => remove c idFrom idUntil lastLog
  | .vote value => vote value
  | .sync => sync

def dropFiles : List WalFile → WriterM Unit
  | [] => pure ()
  | f :: fs => do
    onWal (withFile f drop)
    dropFiles fs

def shutdown : WriterM Unit := do
  onWal (onActive do
    updateHeader
    flush)
  metadataWrite
  let w ← Exec.get
  zoom Writer.dev (fun d w => { w with dev := d })
    (Dev.sys (.err (.io .other)) (.small { w.dev.disk.small with lockFile := false }))
  dropFiles w.wal.files

end Writer

/-! ## Starting a log store -/

/-- `openraft::LogId` with its committed leader id. -/
structure LogId where
  term : ℕ
  nodeId : ℕ
  index : ℕ
deriving DecidableEq

/-- `serialize` and `deserialize` of `log_store_impl.rs` for log ids. A log id is the first field
of an entry, so that it can be read from the bytes of an entry. -/
class Codec where
  serialize : LogId → Bytes
  deserialize : Bytes → Option LogId

variable [Crc] [Codec]

/-- The repair of a missing purge frontier in `writer::spawn`. -/
def repairLastPurged (m : Metadata) (set : WalFileSet) : Exec WalDev Stop Metadata :=
  match set.files with
  | front :: _ =>
    if m.lastPurgedLogId.isNone ∧ 1 < front.walNo ∧ 2 < front.idFrom then do
      Dev.ask (.err (.io .other))
      let d ← Exec.get
      let ino ← unwrap (.err (.io .notFound)) (d.disk.lookup front.walNo)
      let (_, _, logs) ← lift
        ({ front with mmap := some ino }.readLogs d.disk front.idFrom front.idUntil none)
      let log ← unwrap (.err .decode) (logs.head?.bind fun e => Codec.deserialize e.2)
      let m := { m with lastPurgedLogId := some (Codec.serialize { log with index := log.index - 1 }) }
      Dev.sys (.err (.io .other)) (.small ⟨m, true⟩)
      pure m
    else pure m
  | [] => pure m

/-- `LogStore::start` on a directory: the lock file of an earlier process makes the integrity
check a deep one. -/
def start (c : Cfg) : Exec WalDev Stop Writer := do
  let d ← Exec.get
  Dev.sys (.err (.io .other)) (.small ⟨d.disk.small.metaFile, true⟩)
  let set ← read c.walSize
  let set ← set.exec (checkIntegrity c.autoHeal d.disk.small.lockFile)
  let metadata ← repairLastPurged d.disk.small.metaFile set
  let locked := set.cloneNoMap
  let set ← set.exec (onActive openMmapMut)
  let d ← Exec.get
  pure ⟨set, locked, metadata, false, d⟩

def boot (c : Cfg) (d : WalDisk) : Except Stop Writer := (start c (Dev.ofDisk d)).1

def WalDisk.empty : WalDisk := Disk.empty ⟨⟨none, none⟩, false⟩

end Hiqlite.Wal
