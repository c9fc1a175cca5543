import Hiqlite.Lib.Device

/-!
# W1 — errors, headers and records of the write-ahead log

The on-disk format of `hiqlite-wal`: a file starts with a header of 32 bytes and then holds
records, each with its log id, the checksum of its data, the length of its data and the data.
-/

namespace Hiqlite.Wal

/-! ## Errors and panics -/

/-- The kinds of failed system calls and writes that the crate sees. -/
inductive IoError where
  | writeZero
  | alreadyExists
  | notFound
  | unexpectedEof
  | other
deriving DecidableEq

inductive Error where
  | generic (msg : String)
  | fileCorrupted (msg : String)
  | integrity (msg : String)
  | io (e : IoError)
  | walSizeExceeded (msg : String)
  | decode
deriving DecidableEq

/-- Where the code panics. -/
inductive Panic where
  | unwrapMmapMut
  | unwrapDataEnd
  | unwrapActive
  | unwrapFile
  | unwrapRes
  | sliceIndex
  | oversizedEntry (msg : String)
deriving DecidableEq

/-- A computation ends early with an error, with a panic, or not at all. -/
inductive Stop where
  | err (e : Error)
  | panic (p : Panic)
  | diverge
deriving DecidableEq

/-! ## Machine integers -/

def u32Max : ℕ := 2 ^ 32 - 1

def u64Max : ℕ := 2 ^ 64 - 1

/-- A sum in `u32` arithmetic, which wraps in a release build. -/
def addU32 (a b : ℕ) : ℕ := (a + b) % 2 ^ 32

/-- A sum in `u64` arithmetic, which wraps in a release build. -/
def addU64 (a b : ℕ) : ℕ := (a + b) % 2 ^ 64

theorem addU32_of_lt {a b : ℕ} (h : a + b < 2 ^ 32) : addU32 a b = a + b := Nat.mod_eq_of_lt h

theorem addU32_pred {a : ℕ} (h0 : 0 < a) (h : a < 2 ^ 32) : addU32 a (2 ^ 32 - 1) = a - 1 := by
  unfold addU32
  omega

theorem addU64_of_lt {a b : ℕ} (h : a + b < 2 ^ 64) : addU64 a b = a + b := Nat.mod_eq_of_lt h

/-! ## Checksums -/

/-- The `crc` crate's `Crc::<u32>::checksum` with the algorithm of `utils::CHKSUM`. -/
class Crc where
  checksum : Bytes → UInt32

/-- One bit of the division by the polynomial of `CRC_32_CKSUM`. -/
def cksumBit (r : ℕ) : ℕ :=
  if r &&& 0x80000000 ≠ 0 then (r <<< 1) ^^^ 0x104C11DB7 else r <<< 1

def cksumByte (r : ℕ) (b : UInt8) : ℕ := cksumBit^[8] (r ^^^ (b.toNat <<< 24))

/-- `CRC_32_CKSUM`, the algorithm of `utils::CHKSUM`. Only runs on concrete inputs depend on it. -/
@[reducible] def cksum : Crc := ⟨fun bs => UInt32.ofNat (bs.foldl cksumByte 0 ^^^ 0xFFFFFFFF)⟩

-- the check value of the algorithm
example : cksum.checksum [49, 50, 51, 52, 53, 54, 55, 56, 57] = 0x765e7680 := by decide +kernel

/-- The `crc!` macro: the checksum as four little-endian bytes. -/
def crcBytes [Crc] (data : Bytes) : Bytes := toLe 4 (Crc.checksum data).toNat

@[simp] theorem length_crcBytes [Crc] (data : Bytes) : (crcBytes data).length = 4 :=
  length_toLe 4 _

/-! ## The file header -/

/-- The parts of a `WalFile` that its header on disk stores. -/
structure Header where
  idFrom : ℕ
  idUntil : ℕ
  dataStart : Option ℕ
  dataEnd : Option ℕ
deriving DecidableEq

def magicNoWal : Bytes := [72, 81, 76, 95, 87, 65, 76]

def minWalSize : ℕ := 8 * 1024

/-- `WalFile::offset_logs`: magic number, version, `id_from`, `id_until`, `data_start`,
`data_end`. -/
def offsetLogs : ℕ := 7 + 1 + 8 + 8 + 4 + 4

def buildHeader (h : Header) : Bytes :=
  magicNoWal ++ [1] ++ toBe 8 h.idFrom ++ toBe 8 h.idUntil ++ toBe 4 (h.dataStart.getD 0) ++
    toBe 4 (h.dataEnd.getD 0)

/-- The part of `WalFile::read_from_file` that reads the 32 header bytes. A zero offset means
that there is no data. -/
def parseHeader (buf : Bytes) : Except Error Header :=
  if buf.take 7 ≠ magicNoWal then .error (.fileCorrupted "Invalid WAL file magic number")
  else if (buf.drop 7).take 1 ≠ [1] then .error (.fileCorrupted "Invalid WAL file version")
  else
    let dataStart := ofBe ((buf.drop 24).take 4)
    let dataEnd := ofBe ((buf.drop 28).take 4)
    .ok {
      idFrom := ofBe ((buf.drop 8).take 8)
      idUntil := ofBe ((buf.drop 16).take 8)
      dataStart := if dataStart = 0 then none else some dataStart
      dataEnd := if dataEnd = 0 then none else some dataEnd }

/-- The header of a file that was never written: `WalFile::new` with ids `0` and `0`. -/
def Header.unused : Header := ⟨0, 0, none, none⟩

/-- The values a header can store: ids of 64 bits, nonzero offsets of 32 bits. -/
structure Header.Fits (h : Header) : Prop where
  idFrom : h.idFrom < 2 ^ 64
  idUntil : h.idUntil < 2 ^ 64
  dataStart : ∀ s ∈ h.dataStart, 0 < s ∧ s < 2 ^ 32
  dataEnd : ∀ e ∈ h.dataEnd, 0 < e ∧ e < 2 ^ 32

@[simp] theorem length_buildHeader (h : Header) : (buildHeader h).length = 32 := by
  simp [buildHeader, magicNoWal]

theorem getD_of_forall_mem {o : Option ℕ} {P : ℕ → Prop} (h0 : P 0) (h : ∀ s ∈ o, P s) :
    P (o.getD 0) := by
  cases o with
  | none => exact h0
  | some s => exact h s rfl

theorem ite_getD_zero {o : Option ℕ} (h : ∀ s ∈ o, 0 < s) :
    (if o.getD 0 = 0 then none else some (o.getD 0)) = o := by
  cases o with
  | none => rfl
  | some s =>
    have := h s rfl
    simp; omega

theorem parseHeader_buildHeader {h : Header} (hf : h.Fits) :
    parseHeader (buildHeader h) = .ok h := by
  have e1 : (buildHeader h).take 7 = magicNoWal := by simp [buildHeader, magicNoWal]
  have e2 : ((buildHeader h).drop 7).take 1 = [1] := by simp [buildHeader, magicNoWal]
  have e3 : ((buildHeader h).drop 8).take 8 = toBe 8 h.idFrom := by
    simp [buildHeader, magicNoWal]
  have e4 : ((buildHeader h).drop 16).take 8 = toBe 8 h.idUntil := by
    simp [buildHeader, magicNoWal]
  have e5 : ((buildHeader h).drop 24).take 4 = toBe 4 (h.dataStart.getD 0) :=
    take_drop_of_eq (magicNoWal ++ [1] ++ toBe 8 h.idFrom ++ toBe 8 h.idUntil)
      (toBe 4 (h.dataEnd.getD 0)) (by simp [buildHeader]) (by simp [magicNoWal]) (by simp)
  have e6 : ((buildHeader h).drop 28).take 4 = toBe 4 (h.dataEnd.getD 0) :=
    take_drop_of_eq (magicNoWal ++ [1] ++ toBe 8 h.idFrom ++ toBe 8 h.idUntil ++
      toBe 4 (h.dataStart.getD 0)) [] (by simp [buildHeader]) (by simp [magicNoWal])
      (by simp)
  have b1 : h.idFrom < 256 ^ 8 := by have := hf.idFrom; norm_num at this ⊢; omega
  have b2 : h.idUntil < 256 ^ 8 := by have := hf.idUntil; norm_num at this ⊢; omega
  have b3 : h.dataStart.getD 0 < 256 ^ 4 := by
    refine getD_of_forall_mem (P := (· < 256 ^ 4)) (by norm_num) fun s hs => ?_
    have := (hf.dataStart s hs).2
    norm_num at this ⊢; omega
  have b4 : h.dataEnd.getD 0 < 256 ^ 4 := by
    refine getD_of_forall_mem (P := (· < 256 ^ 4)) (by norm_num) fun s hs => ?_
    have := (hf.dataEnd s hs).2
    norm_num at this ⊢; omega
  simp only [parseHeader, e1, e2, e3, e4, e5, e6, ofBe_toBe b1, ofBe_toBe b2, ofBe_toBe b3,
    ofBe_toBe b4, ne_eq, not_true_eq_false, if_false]
  rw [ite_getD_zero fun s hs => (hf.dataStart s hs).1, ite_getD_zero fun s hs => (hf.dataEnd s hs).1]

/-! ## Records -/

/-- `WalRecord`: the id, the stored checksum and the data. -/
structure WalRecord where
  logId : ℕ
  crc : Bytes
  data : Bytes
deriving DecidableEq

/-- `WalRecord::len`: id, checksum, length and data. -/
def WalRecord.len (r : WalRecord) : ℕ := 8 + 4 + 4 + r.data.length

end Hiqlite.Wal
