import Hiqlite.Wal.Format

/-!
# W2 — a single WAL file

`wal.rs`, `WalFile`: the fields in memory, the bytes behind its mappings, and every operation on
one file. A mapping is the inode it maps; `file` exists exactly while `mmap_mut` does.
-/

namespace Hiqlite.Wal

open Exec


/-! ## The storage of the log store -/

/-- `Metadata`: what `meta.hql` stores. -/
structure Metadata where
  lastPurgedLogId : Option Bytes
  vote : Option Bytes
deriving DecidableEq

/-- The files beside the WAL: `meta.hql`, and whether `lock.hql` exists. -/
structure Small where
  metaFile : Metadata
  lockFile : Bool
deriving DecidableEq

inductive WriteKind where
  | crc
  | len
  | data
  | id
  | header
  | nullId
deriving DecidableEq

/-- A log entry as the writer receives it: its id and its serialized bytes. -/
abbrev Entry := ℕ × Bytes

/-- `WalFile`. The version is always `1`, and the path is given by `wal_no`. -/
structure WalFile extends Header where
  walNo : ℕ
  lenMax : ℕ
  mmap : Option ℕ
  mmapMut : Option ℕ
deriving DecidableEq

/-- What the outside sees of the writer: the callback of a batch, a request to remove, and the files
it publishes to the readers. -/
inductive Note where
  | callback (entries : List Entry)
  | remove (idFrom idUntil : ℕ)
  | publish (files : List WalFile)

abbrev WalDisk := Disk Small

abbrev WalEvent := Event WriteKind Small Note

abbrev WalDev := Dev WriteKind Small Note

/-! ## `WalFile` -/

abbrev FileM := Exec (WalFile × WalDev) Stop

/-- `LogReadMemo`: the end of the last record that was read. -/
structure LogReadMemo where
  lastWalNo : ℕ
  idFrom : ℕ
  lastLogId : ℕ
  dataEnd : ℕ
deriving DecidableEq

namespace WalFile

/-- `WalFile::has_space`, in `u64` arithmetic. -/
def hasSpace (f : WalFile) (dataLen : ℕ) : Bool :=
  decide (f.lenMax > f.dataEnd.getD offsetLogs + 1 + 8 + 4 + 4 + dataLen)

def spaceLeft (f : WalFile) : ℕ := f.lenMax - f.dataEnd.getD offsetLogs

def cloneNoMmap (f : WalFile) : WalFile := { f with mmap := none, mmapMut := none }

def cloneFromNoMmap (f other : WalFile) : WalFile := { f with toHeader := other.toHeader }

/-- `WalFile::new`. `build_full_path` pads `wal_no` to 16 digits and cannot index its padding for
a longer one. -/
def new (walNo idFrom idUntil walSize : ℕ) : Except Stop WalFile :=
  if walSize < minWalSize then
    .error (.err (.generic ("min allowed `wal_size` is " ++ toString minWalSize)))
  else if 10 ^ 16 ≤ walNo then .error (.panic .sliceIndex)
  else .ok {
    idFrom := idFrom
    idUntil := idUntil
    dataStart := none
    dataEnd := none
    walNo := walNo
    lenMax := walSize
    mmap := none
    mmapMut := none }

/-! ### Reading -/

/-- `WalFile::read_bytes`: through `mmap` if it exists, else through `mmap_mut`. -/
def readBytes (f : WalFile) (d : WalDisk) (lo hi : ℕ) : Except Stop Bytes :=
  match f.mmap.or f.mmapMut with
  | some ino =>
    if hi ≤ (d.inode ino).len then .ok ((d.inode ino).bytes.read lo (hi - lo))
    else .error (.panic .sliceIndex)
  | none => .error (.err (.generic "No mmap exists"))

def readRecordUnchecked (f : WalFile) (d : WalDisk) (offset : ℕ) : Except Stop WalRecord :=
  if offset + 8 + 4 + 4 > f.lenMax then
    .error (.err (.integrity
      ("WAL record header at offset " ++ toString offset ++ " does not fit into file")))
  else
    match f.readBytes d offset (offset + 16) with
    | .error e => .error e
    | .ok head =>
      let dataLen := ofBe (head.drop 12)
      if dataLen = 0 then
        .error (.err (.integrity "Attempt to read non-existent data of length 0"))
      else if offset + 8 + 4 + 4 + dataLen > f.lenMax then
        .error (.err (.integrity
          ("WAL record data at offset " ++ toString offset ++ " does not fit into file")))
      else
        match f.readBytes d (offset + 16) (offset + 16 + dataLen) with
        | .error e => .error e
        | .ok data => .ok ⟨ofBe (head.take 8), (head.drop 8).take 4, data⟩

variable [Crc]

/-- The loop of `WalFile::read_logs`: the records from `idx` on, with the offset of the record
`idFrom` once it was seen. -/
def readLogsLoop (f : WalFile) (d : WalDisk) (idFrom idUntil : ℕ) :
    ℕ → ℕ → ℕ → Option LogReadMemo → List Entry →
      Except Stop (ℕ × Option LogReadMemo × List Entry)
  | 0, _, _, _, _ => .error .diverge
  | fuel + 1, idx, offset, memo, buf =>
    match f.readRecordUnchecked d idx with
    | .error e => .error e
    | .ok record =>
      let offset := if record.logId = idFrom then idx else offset
      if idFrom ≤ record.logId ∧ idUntil < record.logId then .ok (offset, memo, buf)
      else if idFrom ≤ record.logId ∧ record.crc ≠ crcBytes record.data then
        .error (.err (.integrity "Invalid CRC for WAL Record"))
      else
        let buf := if idFrom ≤ record.logId then buf ++ [(record.logId, record.data)] else buf
        if idUntil ≤ record.logId then
          .ok (offset, some {
            lastWalNo := f.walNo
            idFrom := f.idFrom
            lastLogId := record.logId
            dataEnd := addU32 idx (8 + 4 + 4 + record.data.length) }, buf)
        else
          readLogsLoop f d idFrom idUntil fuel (addU32 idx (record.len + 1)) offset memo buf

/-- Where `WalFile::read_logs` starts: behind the memoized record if it is an earlier one of this
file. -/
def readStart (f : WalFile) (idFrom dataStart : ℕ) (memo : Option LogReadMemo) : ℕ :=
  match memo with
  | some m =>
    if m.lastWalNo = f.walNo ∧ m.idFrom = f.idFrom ∧ m.lastLogId < idFrom then addU32 m.dataEnd 1
    else dataStart
  | none => dataStart

/-- `WalFile::read_logs`: the offset, the new memo and the entries. -/
def readLogs (f : WalFile) (d : WalDisk) (idFrom idUntil : ℕ) (memo : Option LogReadMemo) :
    Except Stop (ℕ × Option LogReadMemo × List Entry) :=
  if f.idFrom > idFrom then
    .error (.err (.generic ("`id_from` is below threshold - id_from: " ++ toString idFrom ++
      " / self.id_from: " ++ toString f.idFrom)))
  else if f.idUntil < idUntil then .error (.err (.generic "`id_until` is above threshold"))
  else if idUntil < idFrom then
    .error (.err (.generic "`id_until` cannot be smaller than `id_from`"))
  else
    match f.dataStart, f.dataEnd with
    | some dataStart, some _ =>
      f.readLogsLoop d idFrom idUntil (f.lenMax + 1) (f.readStart idFrom dataStart memo) 0 memo []
    | _, _ => .error (.panic .unwrapDataEnd)

/-! ### Writing -/

/-- `(&mut mmap[lo..hi]).write_all(bs)` on the mutable mapping: as many bytes as fit are written
before it fails. -/
def writeSlice (kind : WriteKind) (lo hi : ℕ) (bs : Bytes) : FileM Unit := do
  let (f, d) ← Exec.get
  let ino ← unwrap (.panic .unwrapMmapMut) f.mmapMut
  if hi < lo ∨ (d.disk.inode ino).len < hi then
    stop (.panic .sliceIndex)
  else do
    modify fun s => (s.1, s.2.emit (.write ino kind lo (bs.take (hi - lo))))
    if hi - lo < bs.length then stop (.err (.io .writeZero)) else pure ()

def writeTail (kind : WriteKind) (lo : ℕ) (bs : Bytes) : FileM Unit := do
  let (f, d) ← Exec.get
  let ino ← unwrap (.panic .unwrapMmapMut) f.mmapMut
  writeSlice kind lo (d.disk.inode ino).len bs

def onDev {α : Type} (x : Exec WalDev Stop α) : FileM α :=
  zoom Prod.snd (fun d s => (s.1, d)) x

def modifyFile (g : WalFile → WalFile) : FileM Unit := modify fun s => (g s.1, s.2)

def updateHeader : FileM Unit := do
  let (f, _) ← Exec.get
  writeSlice .header 0 (buildHeader f.toHeader).length (buildHeader f.toHeader)

/-- `WalFile::flush`, a blocking `msync`. -/
def flush : FileM Unit := do
  let (f, _) ← Exec.get
  let ino ← unwrap (.panic .unwrapMmapMut) f.mmapMut
  onDev (Dev.sys (.err (.io .other)) (.flush ino))

/-- `WalFile::flush_async`, which is no durability barrier. -/
def flushAsync : FileM Unit := do
  let (f, _) ← Exec.get
  let _ ← unwrap (.panic .unwrapFile) f.mmapMut
  onDev (Dev.ask (.err (.io .other)))

def openFile : FileM ℕ := do
  onDev (Dev.ask (.err (.io .other)))
  let (f, d) ← Exec.get
  unwrap (.err (.io .notFound)) (d.disk.lookup f.walNo)

def openMmap : FileM Unit := do
  let (f, _) ← Exec.get
  if f.mmap.isSome then pure ()
  else do
    let ino ← openFile
    modifyFile fun f => { f with mmap := some ino }

def mmapDrop (f : WalFile) : WalFile := { f with mmap := none }

def openMmapMut : FileM Unit := do
  let (f, _) ← Exec.get
  if f.mmapMut.isSome then pure ()
  else do
    let ino ← openFile
    modifyFile fun f => { f with mmapMut := some ino }

/-- `Drop for WalFile`: a file with a mutable mapping writes its header and flushes. -/
def drop : FileM Unit := do
  let (f, _) ← Exec.get
  if f.mmapMut.isSome then do
    updateHeader
    match ← attempt flush with
    | .ok _ => pure ()
    | .error _ => stop (.panic .unwrapRes)
  else pure ()

/-- `WalFile::create_file`: a new file of null bytes, whose header is written through a mapping
of its own. -/
def createFile : FileM Unit := do
  let (f, d) ← Exec.get
  if (d.disk.lookup f.walNo).isSome then stop (.err (.io .alreadyExists))
  else do
    onDev (Dev.sys (.err (.io .other)) (.create f.walNo f.lenMax))
    onDev (Dev.ask (.err (.io .other)))
    modify fun s => (s.1, s.2.emit (.write d.disk.next .header 0 (buildHeader f.toHeader)))
    onDev (Dev.ask (.err (.io .other)))

/-- `WalFile::read_from_file`, for the file `no` with inode `ino`. -/
def readFromFile (no ino : ℕ) (d : WalDisk) : Except Error WalFile :=
  if (d.inode ino).len < 32 then .error (.io .unexpectedEof)
  else
    match parseHeader ((d.inode ino).bytes.read 0 32) with
    | .error e => .error e
    | .ok h => .ok {
        toHeader := h
        walNo := no
        lenMax := (d.inode ino).len
        mmap := none
        mmapMut := none }

/-- `WalFile::append_log`. The id is written last, and only the first record of a file updates the
header. -/
def appendLog (id : ℕ) (data : Bytes) : FileM Unit := do
  let (f, _) ← Exec.get
  let start ←
    if f.dataStart.isNone then do
      modifyFile fun f => { f with idFrom := id, dataStart := some offsetLogs }
      pure offsetLogs
    else do
      let dataEnd ← unwrap (.panic .unwrapDataEnd) f.dataEnd
      pure (dataEnd + 1)
  writeSlice .crc (start + 8) (start + 8 + 8) (crcBytes data)
  writeSlice .len (start + 8 + 4) (start + 8 + 4 + 4) (toBe 4 data.length)
  writeTail .data (start + 8 + 4 + 4) data
  writeSlice .id start (start + 8) (toBe 8 id)
  modifyFile fun f =>
    { f with idUntil := id, dataEnd := some ((start + 8 + 4 + 4 + data.length) % 2 ^ 32) }
  if f.dataStart.isNone then updateHeader else pure ()

/-! ### The deep integrity check -/

def idGap (idBefore : Option ℕ) (logId : ℕ) : Bool :=
  match idBefore with
  | some id => decide (logId ≠ addU64 id 1)
  | none => false

/-- The fields after a record with a bad checksum was found at `offset`. -/
def rollBack (idBefore : Option ℕ) (offset : ℕ) (f : WalFile) : WalFile :=
  match idBefore with
  | some id => { f with idUntil := id, dataEnd := some (offset - 1) }
  | none => { f with dataStart := none, dataEnd := none, idUntil := f.idFrom }

/-- Phase 1 of `check_repair_data_integrity`: the records the header knows. The result is `none`
if the data was rolled back to the last good record, which ends the check, else the offset and the
id at which phase 2 continues. -/
def checkLoop (autoHeal : Bool) (dataEnd : ℕ) : ℕ → ℕ → Option ℕ → FileM (Option (ℕ × ℕ))
  | 0, _, _ => stop .diverge
  | fuel + 1, offset, idBefore => do
    let (f, d) ← Exec.get
    let record ← lift (f.readRecordUnchecked d.disk offset)
    if idGap idBefore record.logId then
      stop (.err (.integrity ("WAL record incorrect ordering, missing Log ID " ++
        toString (addU64 (idBefore.getD 0) 1))))
    else if record.crc ≠ crcBytes record.data ∨ record.data = [] then
      if autoHeal then do
        modifyFile (rollBack idBefore offset)
        writeSlice .nullId offset (offset + 8) (toBe 8 0)
        pure none
      else stop (.err (.integrity "Invalid CRC for WAL Record"))
    else
      let offset := addU32 offset (record.len + 1)
      if offset > dataEnd ∨ record.logId = f.idUntil then pure (some (offset, record.logId))
      else checkLoop autoHeal dataEnd fuel offset (some record.logId)

/-- Phase 2 of `check_repair_data_integrity`: valid records behind the known ones are taken over
into the header. -/
def scanLoop : ℕ → ℕ → Option ℕ → FileM Unit
  | 0, _, _ => stop .diverge
  | fuel + 1, offset, idBefore => do
    let (f, d) ← Exec.get
    if offset + 8 + 4 + 4 > f.lenMax then pure ()
    else
      match f.readRecordUnchecked d.disk offset with
      | .error (.err _) => pure ()
      | .error p => stop p
      | .ok record =>
        if record.logId = 0 then pure ()
        else if idGap idBefore record.logId then pure ()
        else if record.crc ≠ crcBytes record.data then pure ()
        else do
          modifyFile fun f =>
            { f with
              idUntil := record.logId
              dataStart := if f.dataStart.isNone then some offset else f.dataStart
              dataEnd := some (addU32 offset record.len) }
          updateHeader
          let offset := addU32 offset (record.len + 1)
          if offset ≥ f.lenMax then pure ()
          else scanLoop fuel offset (some record.logId)

/-- `WalFile::check_repair_data_integrity`. Without data, the scan starts one byte behind the
header. -/
def checkRepairDataIntegrity (autoHeal : Bool) : FileM Unit := do
  let (f, _) ← Exec.get
  match f.dataStart with
  | some start => do
    let dataEnd ← unwrap (.panic .unwrapDataEnd) f.dataEnd
    match ← checkLoop autoHeal dataEnd (f.lenMax + 1) start none with
    | some (offset, id) => scanLoop (f.lenMax + 1) offset (some id)
    | none => pure ()
  | none => scanLoop (f.lenMax + 1) (offsetLogs + 1) none

end WalFile

end Hiqlite.Wal
