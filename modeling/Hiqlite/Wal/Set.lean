import Hiqlite.Wal.File
import Mathlib.Data.List.Sort

/-!
# W3 — the set of WAL files

`wal.rs`, `WalFileSet`: the files in order of `wal_no`, the last of which is active.
-/

namespace Hiqlite.Wal

open Exec WalFile

structure WalFileSet where
  active : Option ℕ
  files : List WalFile
deriving DecidableEq

abbrev SetM := Exec (WalFileSet × WalDev) Stop

namespace WalFileSet

variable {α : Type}

def onFile (i : ℕ) (x : FileM α) : SetM α := fun s =>
  match s.1.files[i]? with
  | some f =>
    ((x (f, s.2)).1,
      ({ s.1 with files := s.1.files.set i (x (f, s.2)).2.1 }, (x (f, s.2)).2.2))
  | none => (.error (.panic .unwrapFile), s)

def onActive (x : FileM α) : SetM α := do
  let (s, _) ← Exec.get
  let i ← unwrap (.panic .unwrapActive) s.active
  onFile i x

def onBack (x : FileM α) : SetM α := do
  let (s, _) ← Exec.get
  onFile (s.files.length - 1) x

def withFile (f : WalFile) (x : FileM α) : SetM α :=
  fun s => ((x (f, s.2)).1, (s.1, (x (f, s.2)).2.2))

def exec (s : WalFileSet) (x : SetM Unit) : Exec WalDev Stop WalFileSet :=
  fun d => ((x (s, d)).1.map fun _ => (x (s, d)).2.1, (x (s, d)).2.2)

def modifySet (g : WalFileSet → WalFileSet) : SetM Unit := modify fun s => (g s.1, s.2)

def addFile (walSize : ℕ) : SetM Unit := do
  let (s, _) ← Exec.get
  let walNo := (s.files.getLast?.map fun w => addU64 w.walNo 1).getD 1
  let wal ← lift (new walNo 0 0 walSize)
  withFile wal createFile
  modifySet fun s => { s with files := s.files ++ [wal] }
  if walNo = 1 then modifySet fun s => { s with active := some 0 } else pure ()

/-! ## Starting -/

/-- The loop of `WalFileSet::check_integrity` over all files but the first. A file with both ids
`0` is prepared, but not in use yet. -/
def checkHeaders : ℕ → ℕ → List WalFile → Except Error Unit
  | _, _, [] => .ok ()
  | walNo, idUntil, wal :: rest =>
    if wal.dataEnd.getD 0 > wal.lenMax then
      .error (.integrity "WAL data offset bigger than file size")
    else if addU64 walNo 1 ≠ wal.walNo then
      .error (.integrity ("Missing wal file no " ++ toString (addU64 walNo 1)))
    else if wal.idFrom = 0 ∧ wal.idUntil = 0 then .ok ()
    else if wal.dataStart.isSome ≠ wal.dataEnd.isSome then
      .error (.integrity "Invalid `data_start` / `data_end` values for WAL with data")
    else if wal.dataStart.any (· < offsetLogs) then
      .error (.integrity "`data_start` cannot be smaller than header offset")
    else if wal.dataStart.any fun s =>
        wal.dataEnd.any fun e => s = e || addU32 s (8 + 4 + 4) > e then
      .error (.integrity "`data_start` does not match `data_end` - data cannot fit")
    else if addU64 idUntil 1 ≠ wal.idFrom then
      .error (.integrity ("Missing logs between IDs " ++ toString (addU64 idUntil 1) ++ " and " ++
        toString wal.idFrom))
    else checkHeaders wal.walNo wal.idUntil rest

/-- The part of `WalFileSet::check_integrity` that reads the headers only. -/
def checkFiles : List WalFile → Except Error Unit
  | [] => .ok ()
  | first :: rest =>
    if first.dataEnd.getD 0 > first.lenMax then
      .error (.integrity "WAL data offset bigger than file size")
    else if first.idFrom > first.idUntil then
      .error (.fileCorrupted "`id_from` cannot be greater than `id_until`")
    else checkHeaders first.walNo first.idUntil rest

def checkIntegrity [Crc] (autoHeal deep : Bool) : SetM Unit := do
  let (s, _) ← Exec.get
  if s.files.isEmpty then pure ()
  else do
    lift ((checkFiles s.files).mapError Stop.err)
    if deep then do
      onActive openMmapMut
      onActive (checkRepairDataIntegrity autoHeal)
    else pure ()

def readDir (d : WalDisk) : List WalFile :=
  (d.dir.insertionSort (·.1 ≤ ·.1)).filterMap fun e => (readFromFile e.1 e.2 d).toOption

/-- `WalFileSet::read`: unreadable files are skipped. -/
def read (walSize : ℕ) : Exec WalDev Stop WalFileSet := do
  let d ← Exec.get
  match readDir d.disk with
  | [] => do
    let wal ← lift (new 1 0 0 walSize)
    zoom (fun d => (wal, d)) (fun s _ => s.2) createFile
    pure ⟨some 0, [wal]⟩
  | files => pure ⟨some (files.length - 1), files⟩

/-! ## Mirrors -/

def cloneNoMap (s : WalFileSet) : WalFileSet := { s with files := s.files.map cloneNoMmap }

/-- `WalFileSet::clone_files_from_no_mmap`: files that are gone are dropped, the others take over
the fields of the file at the same position, and the rest is cloned. -/
def cloneFilesFromNoMmap (files other : List WalFile) : Except Stop (List WalFile) :=
  let kept := files.filter fun f => other.any fun upd => upd.walNo = f.walNo
  if other.length < kept.length then .error (.panic .sliceIndex)
  else .ok (kept.zipWith cloneFromNoMmap other ++
    (other.drop kept.length).map cloneNoMmap)

/-! ## Changing the files -/

/-- `WalFileSet::roll_over`: the active file is sealed and a new one becomes active. -/
def rollOver (walSize : ℕ) : SetM Unit := do
  let lastId ← onActive do
    updateHeader
    flush
    modifyFile fun f => { f with mmapMut := none }
    let (f, _) ← Exec.get
    pure f.idUntil
  addFile walSize
  modifySet fun s => { s with active := some (s.files.length - 1) }
  onActive do
    openMmapMut
    modifyFile fun f =>
      { f with idFrom := addU64 lastId 1, idUntil := addU64 lastId 1 }

def removeFile (f : WalFile) : SetM Unit := do
  let (_, d) ← Exec.get
  let res ← attempt (withFile f (
    if (d.disk.lookup f.walNo).isNone then stop (.err (.io .notFound))
    else onDev (Dev.sys (.err (.io .other)) (.remove f.walNo))))
  withFile f drop
  lift res

/-- The loop of `shift_delete_logs` that removes files from the front. -/
def purgeLoop (idUntil : ℕ) : ℕ → SetM Unit
  | 0 => pure ()
  | n + 1 => do
    let (s, _) ← Exec.get
    match s.files with
    | [] => pure ()
    | f :: fs =>
      if f.idUntil < idUntil then do
        modifySet fun s => { s with files := fs }
        removeFile f
        purgeLoop idUntil n
      else pure ()

/-- The loop of `shift_delete_logs` that removes files from the back. -/
def truncateLoop (idFrom : ℕ) : ℕ → SetM Unit
  | 0 => pure ()
  | n + 1 => do
    let (s, _) ← Exec.get
    match s.files.getLast? with
    | none => pure ()
    | some f =>
      if f.idFrom > idFrom then do
        modifySet fun s => { s with files := s.files.dropLast }
        removeFile f
        truncateLoop idFrom n
      else pure ()

def refill (walSize : ℕ) : SetM Unit := do
  let (s, _) ← Exec.get
  if s.files.isEmpty then do
    addFile walSize
    onFile 0 openMmapMut
  else pure ()

variable [Crc]

/-- The front file that stays starts at the record `idUntil`. -/
def purgeFront (idUntil : ℕ) : FileM Unit := do
  let (f, _) ← Exec.get
  if f.idFrom < idUntil ∧ f.dataEnd.isSome then do
    openMmapMut
    let (f, d) ← Exec.get
    let (offset, _, _) ← lift (f.readLogs d.disk idUntil idUntil none)
    modifyFile fun f => { f with idFrom := idUntil, dataStart := some offset }
  else pure ()

/-- The back file that stays ends before the record `idFrom`. -/
def truncateBack (idFrom : ℕ) : FileM Unit := do
  let (f, _) ← Exec.get
  if f.idFrom = idFrom then
    modifyFile fun f => { f with idUntil := idFrom, dataStart := none, dataEnd := none }
  else if f.idUntil ≥ idFrom then do
    openMmapMut
    let (f, d) ← Exec.get
    let (offset, _, _) ← lift (f.readLogs d.disk idFrom idFrom none)
    modifyFile fun f =>
      { f with idUntil := idFrom - 1, dataEnd := some (addU32 offset (2 ^ 32 - 1)) }
  else pure ()

/-- What `WalFileSet::shift_delete_logs` does to the files. -/
def shiftFiles (idFrom idUntil walSize : ℕ) : SetM Unit := do
  let (s, _) ← Exec.get
  if s.files.head?.any fun f => idFrom ≤ f.idFrom then do
    purgeLoop idUntil s.files.length
    refill walSize
    onFile 0 (purgeFront idUntil)
  else if s.files.getLast?.all fun f => f.idUntil ≤ idUntil then do
    truncateLoop idFrom s.files.length
    refill walSize
    onBack (truncateBack idFrom)
  else pure ()

def shiftDeleteLogs (idFrom idUntil walSize : ℕ) : SetM Unit := do
  shiftFiles idFrom idUntil walSize
  modifySet fun s => { s with active := some (s.files.length - 1) }

end WalFileSet

end Hiqlite.Wal
