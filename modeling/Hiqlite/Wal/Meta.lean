import Hiqlite.Wal.File
import Hiqlite.Lib.Path

/-!
# W28 — the metadata file

`metadata.rs`: `meta.hql` is written as `meta.hql~` and renamed. The other modules take the file for a
`Metadata` that is replaced in one step; here that is proved of its bytes.

* `read_metaBytes`: what is written passes every test of the reader;
* **`readOrCreate_allowed`**: after a history of writes, openings and kills.
-/

namespace Hiqlite.Wal.Meta

open List

/-! ## The directory and the system calls -/

structure Dir where
  metaFile : Option Bytes
  tmp : Option Bytes
deriving DecidableEq

/-- The system calls of `write_unchecked`. -/
inductive Op where
  | create
  | writeAll (bs : Bytes)
  | syncData
  | rename
  | syncDir
deriving DecidableEq

/-- One system call. `create` truncates what is left of an earlier attempt. -/
def Op.run (d : Dir) : Op → Dir
  | .create => { d with tmp := some [] }
  | .writeAll bs => { d with tmp := d.tmp.map (· ++ bs) }
  | .syncData => d
  | .rename => ⟨d.tmp, none⟩
  | .syncDir => d

/-- A kill between two system calls, or inside a write after some of its bytes. -/
inductive Killed : List Op → Dir → Dir → Prop
  | here (ops : List Op) (d : Dir) : Killed ops d d
  | torn {bs pre : Bytes} (ops : List Op) (d : Dir) (h : pre <+: bs) :
      Killed (.writeAll bs :: ops) d (Op.run d (.writeAll pre))
  | step {op : Op} {ops : List Op} {d d' : Dir} (h : Killed ops (op.run d) d') :
      Killed (op :: ops) d d'

/-! ## The encoding -/

/-- How `bincode` encodes and decodes a byte vector; decoding returns the bytes it leaves. -/
class VecCodec where
  encodeVec : Bytes → Bytes
  decodeVec : Bytes → Option (Bytes × Bytes)

export VecCodec (encodeVec decodeVec)

def RoundTrips [VecCodec] : Prop :=
  ∀ v rest : Bytes, decodeVec (encodeVec v ++ rest) = some (v, rest)

variable [VecCodec]

/-- An `Option` is a tag and, for `Some`, the value. -/
def encodeOption : Option Bytes → Bytes
  | none => [0]
  | some v => 1 :: encodeVec v

/-- The inverse of `encodeOption`. -/
def decodeOption : Bytes → Option (Option Bytes × Bytes)
  | 0 :: rest => some (none, rest)
  | 1 :: rest => (decodeVec rest).map fun r => (some r.1, r.2)
  | _ => none

def serialize (m : Metadata) : Bytes := encodeOption m.lastPurgedLogId ++ encodeOption m.vote

/-- `utils::deserialize` at `Metadata`. Bytes behind the value are ignored. -/
def deserialize (bs : Bytes) : Except Error Metadata :=
  match decodeOption bs with
  | none => .error .decode
  | some (lastPurgedLogId, rest) =>
    match decodeOption rest with
    | none => .error .decode
    | some (vote, _) => .ok ⟨lastPurgedLogId, vote⟩

/-! ## Writing and reading -/

def magicNoMeta : Bytes := [72, 81, 76, 77, 69, 84, 65]

variable [Crc]

/-- The writes of `write_unchecked`, up to the rename. -/
def fill (bytes : Bytes) : List Op :=
  [.create, .writeAll magicNoMeta, .writeAll [1], .writeAll (crcBytes bytes), .writeAll bytes,
    .syncData]

def writeUnchecked (bytes : Bytes) : List Op := fill bytes ++ [.rename, .syncDir]

def write (m : Metadata) : List Op := writeUnchecked (serialize m)

/-- The part of `Metadata::read_or_create` that reads an existing file. -/
def read (bytes : Bytes) : Except Error Metadata :=
  if bytes.length < 14 then .error (.fileCorrupted "invalid metadata file length")
  else if bytes.take 7 ≠ magicNoMeta then
    .error (.fileCorrupted "metadata file is corrupt - magic no does not match")
  else if (bytes.drop 7).take 1 = [1] then
    if (bytes.drop 8).take 4 ≠ crcBytes (bytes.drop 12) then
      .error (.fileCorrupted "metadata CRC checksum does not match")
    else deserialize (bytes.drop 12)
  else .error (.fileCorrupted "unknown metadata file version")

/-- The value that `read_or_create` writes into a new file. -/
def fresh : Metadata := ⟨none, none⟩

def readOrCreate (d : Dir) : Except Error Metadata × Dir :=
  match d.metaFile with
  | none => (.ok fresh, (write fresh).foldl Op.run d)
  | some bytes => (read bytes, d)

/-! ## Histories -/

/-- What happens to the metadata of a log store. -/
inductive Event where
  | wrote (m : Metadata)
  | killedIn (m : Metadata)
  | opened (r : Except Error Metadata)
  | killedOpening

/-- One event. An opening that is killed has written only if there was no file. -/
def step (d : Dir) (e : Event) (d' : Dir) : Prop :=
  match e with
  | .wrote m => d' = (write m).foldl Op.run d
  | .killedIn m => Killed (write m) d d'
  | .opened r => readOrCreate d = (r, d')
  | .killedOpening => d' = d ∨ d.metaFile = none ∧ Killed (write fresh) d d'

/-- What the file may hold after an event; `none` is no file. -/
def after (a : List (Option Metadata)) : Event → List (Option Metadata)
  | .wrote m => [some m]
  | .killedIn m => some m :: a
  | .opened (.ok v) => [some v]
  | .opened (.error _) => a
  | .killedOpening => if none ∈ a then some fresh :: a else a

def allowed (es : List Event) : List (Option Metadata) := es.foldl after [none]

/-! ## A kill leaves the old file or the new one -/

section Kills

omit [VecCodec] [Crc]

variable {op : Op} {ops ops' : List Op} {d d' : Dir}

theorem run_metaFile (h : op ≠ .rename) : (op.run d).metaFile = d.metaFile := by
  cases op <;> first | rfl | exact absurd rfl h

theorem Killed.metaFile_eq (h : Killed ops d d') (hops : .rename ∉ ops) :
    d'.metaFile = d.metaFile := by
  induction h with
  | here | torn => rfl
  | step _ ih =>
    rw [ih fun hmem => hops (mem_cons_of_mem _ hmem)]
    exact run_metaFile fun hop => hops (hop ▸ mem_cons_self)

theorem Killed.of_append (h : Killed (ops ++ ops') d d') :
    Killed ops d d' ∨ Killed ops' (ops.foldl Op.run d) d' := by
  induction ops generalizing d with
  | nil => exact .inr h
  | cons op ops ih =>
    cases h with
    | here => exact .inl (.here _ _)
    | torn _ _ hpre => exact .inl (.torn _ _ hpre)
    | step h => exact (ih h).imp .step id

end Kills

variable {m v : Metadata} {d d' : Dir} {bytes : Bytes}

def metaBytes (bytes : Bytes) : Bytes := magicNoMeta ++ [1] ++ crcBytes bytes ++ bytes

section

omit [VecCodec]

theorem foldl_fill : (fill bytes).foldl Op.run d = ⟨d.metaFile, some (metaBytes bytes)⟩ := by
  simp [fill, Op.run, metaBytes]

theorem foldl_writeUnchecked :
    (writeUnchecked bytes).foldl Op.run d = ⟨some (metaBytes bytes), none⟩ := by
  rw [writeUnchecked, foldl_append, foldl_fill]
  rfl

theorem killed_writeUnchecked (h : Killed (writeUnchecked bytes) d d') :
    d'.metaFile = d.metaFile ∨ d'.metaFile = some (metaBytes bytes) := by
  rcases h.of_append with h | h
  · exact .inl (h.metaFile_eq (by simp [fill]))
  · rw [foldl_fill] at h
    cases h with
    | here => exact .inl rfl
    | step h => exact .inr (h.metaFile_eq (by simp))

end

/-! ## What is written is read back -/

section RoundTrip

omit [Crc]

theorem decodeOption_encodeOption (hr : RoundTrips) (o : Option Bytes) (rest : Bytes) :
    decodeOption (encodeOption o ++ rest) = some (o, rest) := by
  cases o with
  | none => rfl
  | some v =>
    rw [encodeOption, cons_append, decodeOption, hr v rest]
    rfl

theorem deserialize_serialize (hr : RoundTrips) (m : Metadata) :
    deserialize (serialize m) = .ok m := by
  rw [deserialize, serialize, decodeOption_encodeOption hr]
  have h := decodeOption_encodeOption hr m.vote []
  rw [append_nil] at h
  simp only [h]

theorem two_le_length_serialize (m : Metadata) : 2 ≤ (serialize m).length := by
  have h : ∀ o : Option Bytes, 1 ≤ (encodeOption o).length := fun o => by
    cases o <;> simp [encodeOption]
  have h1 := h m.lastPurgedLogId
  have h2 := h m.vote
  rw [serialize, length_append]
  omega

end RoundTrip

theorem read_metaBytes (hr : RoundTrips) (m : Metadata) :
    read (metaBytes (serialize m)) = .ok m := by
  have hlen := two_le_length_serialize m
  have hcrc := length_crcBytes (serialize m)
  have h8 : (metaBytes (serialize m)).drop 8 = crcBytes (serialize m) ++ serialize m := rfl
  have h₁₂ : (metaBytes (serialize m)).drop 12 = serialize m := by
    rw [← drop_drop (i := 4) (j := 8), h8, drop_left' hcrc]
  rw [read, if_neg, if_neg, if_pos, if_neg, h₁₂, deserialize_serialize hr]
  · rw [h8, h₁₂, take_left' hcrc]
    exact not_not.mpr rfl
  · rfl
  · exact not_not.mpr rfl
  · simp only [metaBytes, length_append, hcrc, magicNoMeta, length_cons, length_nil]
    omega

/-! ## Every history -/

def Holds (d : Dir) (o : Option Metadata) : Prop :=
  d.metaFile = o.map fun m => metaBytes (serialize m)

theorem readOrCreate_of_holds (hr : RoundTrips) {o : Option Metadata} (h : Holds d o) :
    ∃ d', readOrCreate d = (.ok (o.getD fresh), d') ∧ Holds d' (some (o.getD fresh)) := by
  cases o with
  | none =>
    refine ⟨(write fresh).foldl Op.run d, ?_, ?_⟩
    · rw [readOrCreate, show d.metaFile = none from h]
      rfl
    · rw [write, foldl_writeUnchecked]
      rfl
  | some m =>
    refine ⟨d, ?_, h⟩
    rw [readOrCreate, show d.metaFile = some _ from h]
    simp only [read_metaBytes hr, Option.getD_some]

theorem holds_of_killed {o : Option Metadata} (h : Holds d o) (hk : Killed (write m) d d') :
    Holds d' o ∨ Holds d' (some m) :=
  (killed_writeUnchecked hk).imp (fun hd => hd.trans h) id

theorem step_allowed (hr : RoundTrips) {a : List (Option Metadata)} {e : Event}
    (h : ∃ o ∈ a, Holds d o) (hs : step d e d') : ∃ o ∈ after a e, Holds d' o := by
  obtain ⟨o, ho, hd⟩ := h
  cases e with
  | wrote m =>
    refine ⟨some m, mem_singleton_self _, ?_⟩
    rw [show d' = _ from hs, write, foldl_writeUnchecked]
    rfl
  | killedIn m =>
    rcases holds_of_killed hd hs with h | h
    · exact ⟨o, mem_cons_of_mem _ ho, h⟩
    · exact ⟨some m, mem_cons_self, h⟩
  | opened r =>
    obtain ⟨d1, hread, hd1⟩ := readOrCreate_of_holds hr hd
    cases (show readOrCreate d = (r, d') from hs).symm.trans hread
    exact ⟨_, mem_singleton_self _, hd1⟩
  | killedOpening =>
    -- the list only grows, and a killed opening that wrote found no file
    have hgrow : ∀ o ∈ a, o ∈ after a .killedOpening := fun o ho => by
      unfold after
      split_ifs
      · exact mem_cons_of_mem _ ho
      · exact ho
    rcases hs with rfl | ⟨hnone, hk⟩
    · exact ⟨o, hgrow o ho, hd⟩
    · rcases holds_of_killed hd hk with h | h
      · exact ⟨o, hgrow o ho, h⟩
      · have ho' : o = none := by simpa [Holds, hnone] using hd
        subst ho'
        exact ⟨some fresh, by simp [after, ho], h⟩

omit [VecCodec] [Crc] in
theorem none_notMem_allowed {es : List Event} (h : .wrote m ∈ es) : none ∉ allowed es := by
  -- no event brings back `none`, and the write removed it
  have hkeep : ∀ (a : List (Option Metadata)) (e : Event), none ∉ a → none ∉ after a e := by
    intro a e ha
    cases e with
    | wrote m => simp [after]
    | killedIn m => simpa [after] using ha
    | opened r => cases r <;> simp [after, ha]
    | killedOpening => simp [after, ha]
  have hrest : ∀ (es : List Event) (a : List (Option Metadata)), none ∉ a →
      none ∉ es.foldl after a := by
    intro es
    induction es with
    | nil => exact fun _ ha => ha
    | cons e es ih => exact fun a ha => ih _ (hkeep a e ha)
  obtain ⟨es1, es2, rfl⟩ := append_of_mem h
  rw [allowed, foldl_append, foldl_cons]
  exact hrest es2 _ (by simp [after])

/-- **The metadata is neither lost nor torn.** After any history of writes, openings and kills, an
opening succeeds with the value of the last completed write or of one that was interrupted since. -/
theorem readOrCreate_allowed (hr : RoundTrips) {d0 : Dir} (h0 : d0.metaFile = none)
    {es : List Event} (hpath : Path step d0 es d) : (∃ v d', readOrCreate d = (.ok v, d') ∧
      (some v ∈ allowed es ∨ none ∈ allowed es ∧ v = fresh)) ∧
    (∀ m, .wrote m ∈ es → none ∉ allowed es) ∧
    ∀ m, read (metaBytes (serialize m)) = .ok m := by
  refine ⟨?_, fun m => none_notMem_allowed, read_metaBytes hr⟩
  have hinv : ∃ o ∈ allowed es, Holds d o :=
    hpath.invariant (I := fun es d => ∃ o ∈ allowed es, Holds d o)
      ⟨none, mem_singleton_self _, h0⟩ fun es d e d' h hs => by
        rw [allowed, foldl_append]
        exact step_allowed hr h hs
  obtain ⟨o, ho, hd⟩ := hinv
  obtain ⟨d', hread, -⟩ := readOrCreate_of_holds hr hd
  refine ⟨_, d', hread, ?_⟩
  cases o with
  | none => exact .inr ⟨ho, rfl⟩
  | some v => exact .inl ho

-- a kill in the write after a completed one: either value, and no fresh one
example (m m' : Metadata) : allowed [.opened (.ok fresh), .wrote m, .killedIn m'] =
    [some m', some m] := rfl

/-- Reads a vector whose every byte is announced by a `1`. -/
def decodeMarked : Bytes → Option (Bytes × Bytes)
  | 0 :: rest => some ([], rest)
  | 1 :: b :: rest => (decodeMarked rest).map fun r => (b :: r.1, r.2)
  | _ => none

/-- A simple encoding of vectors: every byte after a `1`, and a `0` at the end. -/
@[reducible] def marked : VecCodec := ⟨fun v => v.flatMap (fun b => [1, b]) ++ [0], decodeMarked⟩

omit [VecCodec] [Crc] in
theorem roundTrips_marked : @RoundTrips marked := by
  intro v rest
  show decodeMarked (v.flatMap (fun b => [1, b]) ++ [0] ++ rest) = some (v, rest)
  induction v with
  | nil => rfl
  | cons b v ih =>
    simp only [flatMap_cons, cons_append, nil_append, decodeMarked, ih]
    rfl

omit [VecCodec] [Crc] in
/-- A vote is written, and a second write is killed after the first byte of its file. -/
theorem readOrCreate_allowed_torn : let := marked
    let := cksum
    let voted : Metadata := ⟨none, some [7]⟩
    let torn : Dir := ⟨some (metaBytes (serialize voted)), some [72]⟩
    Path step ⟨none, none⟩ [.wrote voted, .killedIn ⟨none, some [8]⟩] torn ∧
    (∃ v d', readOrCreate torn = (.ok v, d') ∧
      (some v ∈ allowed [.wrote voted, .killedIn ⟨none, some [8]⟩] ∨
        none ∈ allowed [.wrote voted, .killedIn ⟨none, some [8]⟩] ∧ v = fresh)) := by
  intro _ _ voted torn
  have hpath : Path step ⟨none, none⟩ [.wrote voted, .killedIn ⟨none, some [8]⟩] torn := by
    refine (Path.single (t := ⟨some (metaBytes (serialize voted)), none⟩) ?_).snoc ?_
    · exact foldl_writeUnchecked.symm
    · have hpre : [72] <+: magicNoMeta := ⟨[81, 76, 77, 69, 84, 65], rfl⟩
      exact .step (.torn _ _ hpre)
  exact ⟨hpath, (readOrCreate_allowed roundTrips_marked rfl hpath).1⟩

end Hiqlite.Wal.Meta
