import Hiqlite.Lib.Path
import Hiqlite.Wal.Layout
import Hiqlite.Wal.Writer

/-!
# W6 — the journal: what the writer does, one event at a time

A view shows the files together with what the proofs know about them: the records of each file,
the header on disk and how many records the last flush has covered. Every operation of the writer
is a path of moves between views, and a move emits at most one event. A process kill therefore
always finds the disk of some view on the path.

* `Slot.Ok`, `Sealed`, `Next`, `View.Ok`: the invariant.
-/

namespace Hiqlite.Wal

/-! ## Views -/

/-- The header on disk is `h`. -/
def HdrAt (b : Region) (h : Header) : Prop := b.read 0 offsetLogs = buildHeader h

/-- A file of the set: the fields in memory, its inode, its records, how many of them the last flush
has covered, the header on disk, and the records it still counts before `data_start`. -/
structure Slot where
  file : WalFile
  ino : ℕ
  recs : List Entry
  safe : ℕ
  hdr : Option Header
  pre : List Entry

/-- Where the writer is: idle, inside of an append, behind a first record whose header is due, or
behind the creation of a file without a header. -/
inductive Phase where
  | idle
  | writing (e : Entry)
  | due
  | created

/-- The files, the phase, the last request to remove, and the disk. -/
structure View where
  slots : List Slot
  phase : Phase
  request : ℕ × ℕ
  disk : WalDisk

def View.log (v : View) : List Entry := v.slots.flatMap Slot.recs

namespace Slot

def next (a : Slot) : ℕ := (a.file.dataEnd.map (· + 1)).getD offsetLogs

def bytes (d : WalDisk) (a : Slot) : Region := (d.inode a.ino).bytes

def fresh (no len ino : ℕ) : Slot where
  file := ⟨Header.unused, no, len, none, none⟩
  ino := ino
  recs := []
  safe := 0
  hdr := none
  pre := []

/-- The file behind an append of `e`. -/
def push (a : Slot) (e : Entry) : Slot :=
  { a with
    file := { a.file with
      idFrom := if a.file.dataStart.isNone then e.1 else a.file.idFrom
      idUntil := e.1
      dataStart := some (a.file.dataStart.getD offsetLogs)
      dataEnd := some (a.next + 16 + e.2.length) }
    recs := a.recs ++ [e] }

/-- The file was created, but not used yet, and does not know its first id. -/
def Unused (a : Slot) : Prop := a.recs = [] ∧ a.file.toHeader = Header.unused

/-- There is room for `e`. The byte behind it is never written. -/
def Room (a : Slot) (e : Entry) : Prop := a.next + 16 + e.2.length ≤ a.file.lenMax

end Slot

/-- The id of `e` continues the records of the files `ss` and `a`. -/
def Follows (ss : List Slot) (a : Slot) (e : Entry) : Prop :=
  (a.recs ≠ [] → e.1 = a.file.idUntil + 1) ∧
    (a.recs = [] → ∀ p, ss.getLast? = some p → e.1 = p.file.idUntil + 1)

/-! ## Moves -/

/-- What a move does: an event, or a change in memory. -/
inductive Label where
  | event (e : WalEvent)
  | begin (e : Entry)
  | number
  | remap
  | purge
  | truncate

def events (ls : List Label) : List WalEvent :=
  ls.filterMap fun | .event e => some e | _ => none

def View.Requested (v : View) (e : Entry) : Prop := v.request.1 ≤ e.1 ∧ e.1 < v.request.2

/-- A request to remove does not outlast the next callback. -/
def Note.request (x : Note) (r : ℕ × ℕ) : ℕ × ℕ :=
  match x with
  | .remove idFrom idUntil => (idFrom, idUntil)
  | .callback _ => (0, 0)
  | .publish _ => r

/-- What a note means: an acknowledged entry is in the log and, if every batch is flushed, on disk,
and the published files are those of the writer. -/
def Note.Fair (c : Cfg) (v : View) : Note → Prop
  | .callback es => (∀ e ∈ es, e ∈ v.log) ∧
      (c.sync = .immediate → ∀ a ∈ v.slots, a.safe = a.recs.length)
  | .publish fs => fs.map WalFile.walNo = v.slots.map fun a => a.file.walNo
  | .remove .. => True

variable [Crc]

/-- The parts of a record that are written before its id. -/
inductive Field (a : Slot) (e : Entry) : WriteKind → ℕ → Bytes → Prop
  | crc : Field a e .crc (a.next + 8) (crcBytes e.2)
  | len : Field a e .len (a.next + 12) (toBe 4 e.2.length)
  | data : Field a e .data (a.next + 16) e.2

/-- **The moves of a writer.** -/
inductive Move (c : Cfg) : View → Label → View → Prop
  | note (v : View) (x : Note) (hp : v.phase = .idle) (hx : x.Fair c v) :
      Move c v (.event (.note x)) { v with request := x.request v.request }
  | small (v : View) (m : Small) :
      Move c v (.event (.small m))
        { v with disk := (Event.small m : WalEvent).apply v.disk }
  | flush (v : View) (ss : List Slot) (a : Slot) (ts : List Slot) (hv : v.slots = ss ++ a :: ts)
      (hp : v.phase = .idle) (hh : a.hdr = some a.file.toHeader) :
      Move c v (.event (.flush a.ino))
        { v with slots := ss ++ { a with safe := a.recs.length } :: ts }
  | flushStale (v : View) (ino : ℕ) (hp : v.phase = .idle) (hi : ∀ a ∈ v.slots, a.ino ≠ ino) :
      Move c v (.event (.flush ino)) v
  | writeStale (v : View) (ino : ℕ) (k : WriteKind) (off : ℕ) (bs : Bytes)
      (hp : v.phase = .idle) (hi : ∀ a ∈ v.slots, a.ino ≠ ino) (hk : k ≠ .id)
      (hlt : ino < v.disk.next) :
      Move c v (.event (.write ino k off bs))
        { v with disk := (Event.write ino k off bs : WalEvent).apply v.disk }
  | header (v : View) (ss : List Slot) (a : Slot) (ts : List Slot) (hv : v.slots = ss ++ a :: ts)
      (hp : v.phase = .idle ∨ (v.phase = .due ∨ v.phase = .created) ∧ ts = []) :
      Move c v (.event (.write a.ino .header 0 (buildHeader a.file.toHeader)))
        { v with
          slots := ss ++ { a with hdr := some a.file.toHeader, pre := [] } :: ts
          phase := .idle
          disk := (Event.write a.ino .header 0 (buildHeader a.file.toHeader) : WalEvent).apply
            v.disk }
  | field (v : View) (ss : List Slot) (a : Slot) (e : Entry) (k : WriteKind) (off : ℕ) (bs : Bytes)
      (hv : v.slots = ss ++ [a]) (hp : v.phase = .writing e) (hf : Field a e k off bs) :
      Move c v (.event (.write a.ino k off bs))
        { v with disk := (Event.write a.ino k off bs : WalEvent).apply v.disk }
  | commit (v : View) (ss : List Slot) (a : Slot) (e : Entry) (hv : v.slots = ss ++ [a])
      (hp : v.phase = .writing e) (hcrc : (a.bytes v.disk).read (a.next + 8) 4 = crcBytes e.2)
      (hlen : (a.bytes v.disk).read (a.next + 12) 4 = toBe 4 e.2.length)
      (hdata : (a.bytes v.disk).read (a.next + 16) e.2.length = e.2) :
      Move c v (.event (.write a.ino .id a.next (toBe 8 e.1)))
        { v with
          slots := ss ++ [a.push e]
          phase := if a.recs = [] then .due else .idle
          disk := (Event.write a.ino .id a.next (toBe 8 e.1) : WalEvent).apply v.disk }
  | create (v : View) (no : ℕ) (hp : v.phase = .idle) (hmin : minWalSize ≤ c.walSize)
      (hno : no < 10 ^ 16) (hnil : v.slots = [] → no = 1)
      (hlast : ∀ ss a, v.slots = ss ++ [a] → no = a.file.walNo + 1 ∧ a.recs ≠ [] ∧
        a.hdr = some a.file.toHeader ∧ a.safe = a.recs.length) :
      Move c v (.event (.create no c.walSize))
        { v with
          slots := v.slots ++ [Slot.fresh no c.walSize v.disk.next]
          phase := .created
          disk := (Event.create no c.walSize : WalEvent).apply v.disk }
  | removeFront (v : View) (a : Slot) (ss : List Slot) (hv : v.slots = a :: ss)
      (hp : v.phase = .idle) (hr : ∀ e ∈ a.recs, v.Requested e) :
      Move c v (.event (.remove a.file.walNo))
        { v with
          slots := ss
          disk := (Event.remove a.file.walNo : WalEvent).apply v.disk }
  | removeBack (v : View) (ss : List Slot) (a : Slot) (hv : v.slots = ss ++ [a])
      (hp : v.phase = .idle) (hr : ∀ e ∈ a.recs, v.Requested e) :
      Move c v (.event (.remove a.file.walNo))
        { v with
          slots := ss
          disk := (Event.remove a.file.walNo : WalEvent).apply v.disk }
  | begin (v : View) (ss : List Slot) (a : Slot) (e : Entry) (hv : v.slots = ss ++ [a])
      (hp : v.phase = .idle) (he : EntryOk e) (hr : a.Room e) (hf : Follows ss a e) :
      Move c v (.begin e) { v with phase := .writing e }
  | number (v : View) (ss : List Slot) (a b : Slot) (hv : v.slots = ss ++ [a, b])
      (hp : v.phase = .idle) (hb : b.recs = []) :
      Move c v .number
        { v with
          slots := ss ++ [a, { b with
            file := { b.file with
              idFrom := a.file.idUntil + 1
              idUntil := a.file.idUntil + 1 } }] }
  | remap (v : View) (ss : List Slot) (a : Slot) (ts : List Slot) (o : Option ℕ)
      (hv : v.slots = ss ++ a :: ts) (hp : v.phase = .idle) (ho : ∀ i ∈ o, i = a.ino) :
      Move c v .remap
        { v with slots := ss ++ { a with file := { a.file with mmapMut := o } } :: ts }
  | purge (v : View) (a : Slot) (ss : List Slot) (h : Header) (j : ℕ) (s : ℕ)
      (hv : v.slots = a :: ss) (hp : v.phase = .idle) (hj : a.recs.drop j ≠ [])
      (hb : Body (a.bytes v.disk) a.file.lenMax h (a.recs.drop j)) (hs : a.file.dataStart = some s)
      (hs' : h.dataStart = some (endOf s (a.recs.take j))) (hi : h.idUntil = a.file.idUntil)
      (he : h.dataEnd = a.file.dataEnd) (hr : ∀ e ∈ a.recs.take j, v.Requested e) :
      Move c v .purge
        { v with
          slots := { a with
            file := { a.file with toHeader := h }
            recs := a.recs.drop j
            safe := a.safe - j
            pre := a.pre ++ a.recs.take j } :: ss }
  | truncate (v : View) (ss : List Slot) (a : Slot) (h : Header) (j : ℕ)
      (hv : v.slots = ss ++ [a]) (hp : v.phase = .idle)
      (hb : Body (a.bytes v.disk) a.file.lenMax h (a.recs.take j))
      (hi : h.idFrom = a.file.idFrom) (hs : a.recs.take j ≠ [] → h.dataStart = a.file.dataStart)
      (hr : ∀ e ∈ a.recs.drop j, v.Requested e) :
      Move c v .truncate
        { v with
          slots := ss ++ [{ a with
            file := { a.file with toHeader := h }
            recs := a.recs.take j
            safe := min a.safe j }] }

/-! ## The invariant -/

/-- A header whose fields fit together in a file of `len` bytes. -/
structure Header.Shaped (len : ℕ) (h : Header) : Prop where
  fits : h.Fits
  le : h.idFrom ≤ h.idUntil
  data : h.dataStart = none ∧ h.dataEnd = none ∨
    ∃ s e, h.dataStart = some s ∧ h.dataEnd = some e ∧ offsetLogs ≤ s ∧ s + 16 < e ∧ e ≤ len

namespace Slot

structure Ok (d : WalDisk) (a : Slot) : Prop where
  body : Body (a.bytes d) a.file.lenMax a.file.toHeader a.recs
  len : (d.inode a.ino).len = a.file.lenMax
  min_le : minWalSize ≤ a.file.lenMax
  lt_max : a.file.lenMax < u32Max
  no_lt : a.file.walNo < 10 ^ 16
  mapped : ∀ i ∈ a.file.mmapMut, i = a.ino
  mmap : a.file.mmap = none
  safe : a.safe ≤ a.recs.length
  hdr : ∀ h ∈ a.hdr, HdrAt (a.bytes d) h ∧ h.Shaped a.file.lenMax

/-- The records lie behind the data start that the header on disk names. -/
def Rooted (d : WalDisk) (a : Slot) : Prop :=
  a.recs ≠ [] → ∃ h s, a.hdr = some h ∧ h.dataStart = some s ∧ offsetLogs ≤ s ∧
    Laid (a.bytes d) s (a.pre ++ a.recs) ∧ a.file.dataStart = some (endOf s a.pre) ∧
    ∀ e ∈ a.pre, EntryOk e

/-- A file that is not the last one: a flush has covered its records, and the header on disk
describes them. -/
def Sealed (d : WalDisk) (a : Slot) : Prop :=
  a.recs ≠ [] ∧ a.safe = a.recs.length ∧ ∃ h, a.hdr = some h ∧
    Body (a.bytes d) a.file.lenMax h (a.pre ++ a.recs) ∧ h.idUntil = a.file.idUntil ∧
      h.dataEnd = a.file.dataEnd ∧
    ∃ s, h.dataStart = some s ∧ a.file.dataStart = some (endOf s a.pre)

/-- `b` continues `a`, in memory and on disk. -/
structure Next (a b : Slot) : Prop where
  no : b.file.walNo = a.file.walNo + 1
  id : b.file.idFrom = a.file.idUntil + 1 ∨ b.Unused
  hdr : ∀ h ∈ b.hdr, h.idFrom = a.file.idUntil + 1 ∨ h = Header.unused

end Slot

def LastOk (d : WalDisk) (ss : List Slot) (a : Slot) : Phase → Prop
  | .idle => a.Rooted d ∧ a.hdr.isSome
  | .writing e => (a.Rooted d ∧ a.hdr.isSome) ∧ EntryOk e ∧ a.Room e ∧ Follows ss a e
  | .due => a.recs.length = 1 ∧ a.hdr.isSome
  | .created => a.recs = [] ∧ a.file.toHeader = Header.unused ∧ a.hdr = none ∧
      a.bytes d = Region.zero

/-- **The invariant of a view.** -/
structure View.Ok (v : View) : Prop where
  dir : v.disk.dir = v.slots.map fun a => (a.file.walNo, a.ino)
  lt : ∀ a ∈ v.slots, a.ino < v.disk.next
  nodup : (v.slots.map Slot.ino).Nodup
  slots : ∀ a ∈ v.slots, a.Ok v.disk
  chain : v.slots.IsChain fun a b => a.Sealed v.disk ∧ a.Next b
  last : ∀ ss a, v.slots = ss ++ [a] → LastOk v.disk ss a v.phase
  busy : v.phase ≠ .idle → v.slots ≠ []

end Hiqlite.Wal
