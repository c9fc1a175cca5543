import Hiqlite.Wal.Check
import Hiqlite.Wal.Set

/-!
# W29 — reading damaged files

`check_repair_data_integrity` and `read_logs` once more, now in a build with overflow checks and with
a note of every record that is read, on bytes that may be anything.

* **`checkRepair_agrees`**, **`readLogs_agrees`**: unless they overflow, they do what they do
  without the checks;
* **`damaged_reads_safe_iff`**: they end with `Ok` or `Err`, go forward and read few records;
  `accepted_headers_unsafe`.
-/

namespace Hiqlite.Wal

open List Exec

/-- How a build with overflow checks is stopped. -/
inductive Fault
  | stop (s : Stop)
  | overflow
deriving DecidableEq

/-- The file and the disk, and the offsets of the records that were read. -/
abbrev ReadM := Exec ((WalFile × WalDev) × List ℕ) Fault

namespace Checked

def ofFile {α : Type} (x : FileM α) : ReadM α := fun s =>
  match x s.1 with
  | (.ok a, t) => (.ok a, t, s.2)
  | (.error e, t) => (.error (.stop e), t, s.2)

/-- A sum of unsigned integers with `w` bits. -/
def add (w a b : ℕ) : ReadM ℕ := if a + b < 2 ^ w then pure (a + b) else stop .overflow

def readRecord (offset : ℕ) : ReadM WalRecord := do
  modify fun s => (s.1, s.2 ++ [offset])
  let ((f, d), _) ← Exec.get
  ofFile (lift (f.readRecordUnchecked d.disk offset))

/-- `record.log_id != id_before + 1` -/
def idGap (idBefore : Option ℕ) (logId : ℕ) : ReadM Bool :=
  match idBefore with
  | some id => do
    let next ← add 64 id 1
    pure (decide (logId ≠ next))
  | none => pure false

variable [Crc]

/-- Phase 1 of `check_repair_data_integrity`. -/
def checkLoop (autoHeal : Bool) (dataEnd : ℕ) : ℕ → ℕ → Option ℕ → ReadM (Option (ℕ × ℕ))
  | 0, _, _ => stop (.stop .diverge)
  | fuel + 1, offset, idBefore => do
    let record ← readRecord offset
    if ← idGap idBefore record.logId then
      stop (.stop (.err (.integrity ("WAL record incorrect ordering, missing Log ID " ++
        toString (idBefore.getD 0 + 1)))))
    else if record.crc ≠ crcBytes record.data ∨ record.data = [] then
      if autoHeal then
        -- `offset - 1`
        if idBefore.isSome ∧ offset = 0 then stop .overflow
        else ofFile do
          WalFile.modifyFile (WalFile.rollBack idBefore offset)
          WalFile.writeSlice .nullId offset (offset + 8) (toBe 8 0)
          pure none
      else stop (.stop (.err (.integrity "Invalid CRC for WAL Record")))
    else do
      let offset ← add 32 offset (record.len + 1)
      let ((f, _), _) ← Exec.get
      if offset > dataEnd ∨ record.logId = f.idUntil then pure (some (offset, record.logId))
      else checkLoop autoHeal dataEnd fuel offset (some record.logId)

/-- Phase 2 of `check_repair_data_integrity`. -/
def scanLoop : ℕ → ℕ → Option ℕ → ReadM Unit
  | 0, _, _ => stop (.stop .diverge)
  | fuel + 1, offset, idBefore => do
    let ((f, _), _) ← Exec.get
    if offset + 8 + 4 + 4 > f.lenMax then pure ()
    else
      match ← attempt (readRecord offset) with
      | .error (.stop (.err _)) => pure ()
      | .error e => stop e
      | .ok record =>
        if record.logId = 0 then pure ()
        else if ← idGap idBefore record.logId then pure ()
        else if record.crc ≠ crcBytes record.data then pure ()
        else do
          let dataEnd ← add 32 offset record.len
          ofFile do
            WalFile.modifyFile fun f =>
              { f with
                idUntil := record.logId
                dataStart := if f.dataStart.isNone then some offset else f.dataStart
                dataEnd := some dataEnd }
            WalFile.updateHeader
          let offset ← add 32 offset (record.len + 1)
          if offset ≥ f.lenMax then pure ()
          else scanLoop fuel offset (some record.logId)

/-- Both phases, from an offset on. -/
def checkFrom (autoHeal : Bool) (dataEnd fuel fuel' offset : ℕ) (idBefore : Option ℕ) :
    ReadM Unit := do
  match ← checkLoop autoHeal dataEnd fuel offset idBefore with
  | some (offset, id) => scanLoop fuel' offset (some id)
  | none => pure ()

/-- `WalFile::check_repair_data_integrity` -/
def checkRepair (autoHeal : Bool) : ReadM Unit := do
  let ((f, _), _) ← Exec.get
  match f.dataStart with
  | some start => do
    let dataEnd ← unwrap (.stop (.panic .unwrapDataEnd)) f.dataEnd
    checkFrom autoHeal dataEnd (f.lenMax + 1) (f.lenMax + 1) start none
  | none => scanLoop (f.lenMax + 1) (offsetLogs + 1) none

/-- The loop of `WalFile::read_logs`. -/
def readLogsLoop (idFrom idUntil : ℕ) : ℕ → ℕ → ℕ → Option LogReadMemo → List Entry →
    ReadM (ℕ × Option LogReadMemo × List Entry)
  | 0, _, _, _, _ => stop (.stop .diverge)
  | fuel + 1, idx, offset, memo, buf => do
    let record ← readRecord idx
    let offset := if record.logId = idFrom then idx else offset
    if idFrom ≤ record.logId ∧ idUntil < record.logId then pure (offset, memo, buf)
    else if idFrom ≤ record.logId ∧ record.crc ≠ crcBytes record.data then
      stop (.stop (.err (.integrity "Invalid CRC for WAL Record")))
    else
      let buf := if idFrom ≤ record.logId then buf ++ [(record.logId, record.data)] else buf
      if idUntil ≤ record.logId then do
        let ((f, _), _) ← Exec.get
        let dataEnd ← add 32 idx (8 + 4 + 4 + record.data.length)
        pure (offset, some ⟨f.walNo, f.idFrom, record.logId, dataEnd⟩, buf)
      else do
        let idx ← add 32 idx (record.len + 1)
        readLogsLoop idFrom idUntil fuel idx offset memo buf

/-- Where `WalFile::read_logs` starts. -/
def readStart (f : WalFile) (idFrom dataStart : ℕ) (memo : Option LogReadMemo) : ReadM ℕ :=
  match memo with
  | some m =>
    if m.lastWalNo = f.walNo ∧ m.idFrom = f.idFrom ∧ m.lastLogId < idFrom then add 32 m.dataEnd 1
    else pure dataStart
  | none => pure dataStart

def readLogs (idFrom idUntil : ℕ) (memo : Option LogReadMemo) :
    ReadM (ℕ × Option LogReadMemo × List Entry) := do
  let ((f, _), _) ← Exec.get
  if f.idFrom > idFrom then
    stop (.stop (.err (.generic ("`id_from` is below threshold - id_from: " ++
      toString idFrom ++ " / self.id_from: " ++ toString f.idFrom))))
  else if f.idUntil < idUntil then
    stop (.stop (.err (.generic "`id_until` is above threshold")))
  else if idUntil < idFrom then
    stop (.stop (.err (.generic "`id_until` cannot be smaller than `id_from`")))
  else do
    let dataStart ← unwrap (.stop (.panic .unwrapDataEnd)) f.dataStart
    let _ ← unwrap (.stop (.panic .unwrapDataEnd)) f.dataEnd
    let idx ← readStart f idFrom dataStart memo
    readLogsLoop idFrom idUntil (f.lenMax + 1) idx 0 memo []

end Checked

/-! ## Safe ends -/

/-- The offsets of the records that were read increase, and there are few of them. -/
def Few (len : ℕ) (seen : List ℕ) : Prop := seen.Pairwise (· < ·) ∧ seen.length ≤ len / 16 + 1

/-- The function ends with `Ok` or `Err`. -/
def Safe {α : Type} (len : ℕ) (r : Except Fault α × (WalFile × WalDev) × List ℕ) : Prop :=
  (∀ x, r.1 = .error x → ∃ e, x = .stop (.err e)) ∧ Few len r.2.2

theorem not_safe_panic {p : Panic} {s : (WalFile × WalDev) × List ℕ} :
    ¬ Safe (α := α) len (.error (.stop (.panic p)), s) := by
  rintro ⟨h, -⟩
  obtain ⟨e, he⟩ := h _ rfl
  cases he

/-- The offsets that were read before `off`. -/
structure Noted (len off : ℕ) (seen : List ℕ) : Prop where
  sorted : seen.Pairwise (· < ·)
  below : ∀ x ∈ seen, x < off
  short : 18 * seen.length ≤ off
  fits : seen ≠ [] → off ≤ len + 1

variable {α : Type} {len off n : ℕ} {seen : List ℕ}

theorem Noted.nil : Noted len off [] := ⟨.nil, nofun, Nat.zero_le _, nofun⟩

section

variable (h : Noted len off seen)
include h

theorem Noted.sorted_concat : (seen ++ [off]).Pairwise (· < ·) :=
  pairwise_append.mpr ⟨h.sorted, pairwise_singleton _ _, by simpa using h.below⟩

theorem Noted.next (hn : 0 < n) (hfit : off + 16 + n ≤ len) :
    Noted len (off + 17 + n) (seen ++ [off]) where
  sorted := h.sorted_concat
  below x hx := by
    rcases mem_append.mp hx with hx | hx
    · have := h.below x hx
      omega
    · rw [mem_singleton.mp hx]
      omega
  short := by
    have := h.short
    rw [length_append, length_singleton]
    omega
  fits _ := by omega

theorem Noted.length_le : seen.length ≤ len / 16 := by
  by_cases hs : seen = []
  · simp [hs]
  · have h1 := h.fits hs
    have h2 := h.short
    have h3 := length_pos_iff.mpr hs
    omega

theorem Noted.few : Few len seen :=
  ⟨h.sorted, h.length_le.trans (Nat.le_succ _)⟩

theorem Noted.few_concat : Few len (seen ++ [off]) :=
  ⟨h.sorted_concat, by
    rw [length_append, length_singleton]
    exact Nat.succ_le_succ h.length_le⟩

end

/-- The function overflows if `c` holds, and is safe otherwise. -/
def Ends (len : ℕ) (c : Prop) (r : Except Fault α × (WalFile × WalDev) × List ℕ) : Prop :=
  (c → r.1 = .error .overflow) ∧ (¬ c → Safe len r)

variable {c : Prop}

theorem Ends.safe_iff {r : Except Fault α × (WalFile × WalDev) × List ℕ} (h : Ends len c r) :
    Safe len r ↔ ¬ c := by
  refine ⟨fun hs hc => ?_, h.2⟩
  obtain ⟨e, he⟩ := hs.1 _ (h.1 hc)
  cases he

theorem ends_ok {a : α} {s : WalFile × WalDev} (hc : ¬ c) (h : Few len seen) :
    Ends len c (.ok a, s, seen) :=
  ⟨fun h => absurd h hc, fun _ => ⟨nofun, h⟩⟩

theorem ends_err {e : Error} {s : WalFile × WalDev} (hc : ¬ c) (h : Few len seen) :
    Ends (α := α) len c (.error (.stop (.err e)), s, seen) :=
  ⟨fun h => absurd h hc, fun _ => ⟨fun x hx => ⟨e, by cases hx; rfl⟩, h⟩⟩

/-! ## Ids that overrun -/

section Overruns

variable [Crc]

/-- The check at `off` comes to a record behind the id `u64::MAX`. -/
inductive Overruns (b : Region) (len dataEnd idUntil : ℕ) : Bool → ℕ → Option ℕ → Prop
  | here {known : Bool} {off : ℕ} {r : WalRecord} (hr : parseRecord b len off = some r)
      (hid : known = true ∨ r.logId ≠ 0) : Overruns b len dataEnd idUntil known off (some u64Max)
  | next {known : Bool} {off : ℕ} {idBefore : Option ℕ} {r : WalRecord}
      (hr : parseRecord b len off = some r) (hid : known = true ∨ r.logId ≠ 0)
      (hgap : WalFile.idGap idBefore r.logId = false) (hcrc : r.crc = crcBytes r.data)
      (h : Overruns b len dataEnd idUntil
        (known && !decide (dataEnd < off + 17 + r.data.length ∨ r.logId = idUntil))
        (off + 17 + r.data.length) (some r.logId)) :
      Overruns b len dataEnd idUntil known off idBefore

/-- The check of a file with this header overruns. -/
def Header.Overruns (h : Header) (b : Region) (len : ℕ) : Prop :=
  Wal.Overruns b len (h.dataEnd.getD 0) h.idUntil h.dataStart.isSome
    (h.dataStart.getD (offsetLogs + 1)) none

variable {b b' : Region} {dataEnd idUntil : ℕ} {known : Bool} {idBefore : Option ℕ}

theorem Overruns.congr (h : Overruns b len dataEnd idUntil known off idBefore)
    (hb : Region.AgreeOn off len b b') : Overruns b' len dataEnd idUntil known off idBefore := by
  induction h with
  | here hr hid => exact .here (parseRecord_congr hb ▸ hr) hid
  | next hr hid hgap hcrc _ ih =>
    exact .next (parseRecord_congr hb ▸ hr) hid hgap hcrc (ih (hb.mono (by omega) le_rfl))

theorem overruns_iff_of_agree (hb : Region.AgreeOn off len b b') :
    Overruns b len dataEnd idUntil known off idBefore ↔
      Overruns b' len dataEnd idUntil known off idBefore :=
  ⟨fun h => h.congr hb, fun h => h.congr hb.symm⟩

theorem not_overruns_of_none (hr : parseRecord b len off = none) :
    ¬ Overruns b len dataEnd idUntil known off idBefore := by
  rintro (⟨hr', -⟩ | ⟨hr', -⟩) <;> rw [hr] at hr' <;> cases hr'

theorem overruns_iff {r : WalRecord} (hr : parseRecord b len off = some r)
    (hmax : idBefore ≠ some u64Max) : Overruns b len dataEnd idUntil known off idBefore ↔
      (known = true ∨ r.logId ≠ 0) ∧ WalFile.idGap idBefore r.logId = false ∧
        r.crc = crcBytes r.data ∧ Overruns b len dataEnd idUntil
          (known && !decide (dataEnd < off + 17 + r.data.length ∨ r.logId = idUntil))
          (off + 17 + r.data.length) (some r.logId) := by
  constructor
  · rintro (⟨-, -⟩ | ⟨hr', hid, hgap, hcrc, h⟩)
    · exact absurd rfl hmax
    · cases hr.symm.trans hr'
      exact ⟨hid, hgap, hcrc, h⟩
  · rintro ⟨hid, hgap, hcrc, h⟩
    exact .next hr hid hgap hcrc h

end Overruns

/-! ## The same reads -/

namespace Checked

variable {f : WalFile} {d : WalDev} {ino fuel : ℕ} {idBefore : Option ℕ} {r : WalRecord}

/-- Unless it overflows, the function ends as without the checks. -/
def Agrees (p : Except Fault α × (WalFile × WalDev) × List ℕ)
    (q : Except Stop α × WalFile × WalDev) : Prop :=
  p.1 = .error .overflow ∨ ∃ seen, p = (q.1.mapError .stop, q.2, seen)

section

variable {q : Except Stop α × WalFile × WalDev} {t : (WalFile × WalDev) × List ℕ}

theorem agrees_ofFile (x : FileM α) (s : WalFile × WalDev) : Agrees (ofFile x (s, seen)) (x s) := by
  refine .inr ⟨seen, ?_⟩
  rw [ofFile]
  rcases x s with ⟨a | e, t⟩ <;> rfl

theorem Agrees.bind {β : Type} {x : ReadM β} {y : FileM β} {k : β → ReadM α} {k' : β → FileM α}
    {s : WalFile × WalDev} (h : Agrees (x t) (y s))
    (hk : ∀ b s seen, Agrees (k b (s, seen)) (k' b s)) : Agrees ((x >>= k) t) ((y >>= k') s) := by
  rcases h with h | ⟨seen, h⟩
  · exact .inl (by rw [bind_error (Prod.ext h rfl)])
  · rcases hy : y s with ⟨e | b, s'⟩
    · rw [hy] at h
      rw [bind_error h, bind_error hy]
      exact .inr ⟨_, rfl⟩
    · rw [hy] at h
      rw [bind_ok h, bind_ok hy]
      exact hk b s' seen

theorem agrees_add {w a c : ℕ} {k : ℕ → ReadM α} (h : a + c < 2 ^ w → Agrees (k (a + c) t) q) :
    Agrees ((add w a c >>= k) t) q := by
  rw [add]
  split_ifs with hlt
  · exact h hlt
  · exact .inl rfl

theorem agrees_addU32 {a c : ℕ} {k : ℕ → ReadM α} (h : Agrees (k (addU32 a c) t) q) :
    Agrees ((add 32 a c >>= k) t) q :=
  agrees_add fun hlt => by rwa [addU32_of_lt hlt] at h

theorem agrees_ite {c : Prop} [Decidable c] {x x' : ReadM α} {y y' : FileM α} {s : WalFile × WalDev}
    (h : c → Agrees (x t) (y s)) (h' : ¬ c → Agrees (x' t) (y' s)) :
    Agrees ((if c then x else x') t) ((if c then y else y') s) := by
  split_ifs with hc
  · exact h hc
  · exact h' hc

theorem agrees_idGap {logId : ℕ} {k : Bool → ReadM α}
    (h : (∀ id ∈ idBefore, id + 1 < 2 ^ 64) → Agrees (k (WalFile.idGap idBefore logId) t) q) :
    Agrees ((idGap idBefore logId >>= k) t) q := by
  cases idBefore with
  | none => exact h nofun
  | some id =>
    rw [idGap, bind_assoc']
    refine agrees_add fun hlt => ?_
    have := h fun i hi => by cases hi; exact hlt
    rwa [WalFile.idGap, addU64_of_lt hlt] at this

end

theorem readRecord_eq (f : WalFile) (d : WalDev) (off : ℕ) (seen : List ℕ) :
    readRecord off ((f, d), seen) =
      ((f.readRecordUnchecked d.disk off).mapError .stop, (f, d), seen ++ [off]) := by
  rw [readRecord]
  rcases h : f.readRecordUnchecked d.disk off with e | r <;> simp [ofFile, h, Except.mapError]

section

variable [Crc]

theorem checkLoop_agrees {heal : Bool} {dataEnd : ℕ} :
    Agrees (checkLoop heal dataEnd fuel off idBefore ((f, d), seen))
      (WalFile.checkLoop heal dataEnd fuel off idBefore (f, d)) := by
  induction fuel generalizing off idBefore seen with
  | zero => exact .inr ⟨seen, rfl⟩
  | succ fuel ih =>
    rw [checkLoop, WalFile.checkLoop, get_bind]
    simp only
    have hread := readRecord_eq f d off seen
    rcases hr : f.readRecordUnchecked d.disk off with e | r <;> rw [hr] at hread
    · rw [bind_error hread]
      exact .inr ⟨_, rfl⟩
    rw [bind_ok hread, lift_ok, pure_bind]
    refine agrees_idGap fun hlt => agrees_ite (fun hgap => ?_) fun _ =>
      agrees_ite (fun _ => ?_) fun _ => agrees_addU32 ?_
    · cases idBefore with
      | none => cases hgap
      | some id =>
        rw [Option.getD_some, addU64_of_lt (hlt id rfl)]
        exact .inr ⟨_, rfl⟩
    · split_ifs
      · exact .inl rfl
      · exact agrees_ofFile _ _
      · exact .inr ⟨_, rfl⟩
    · rw [get_bind]
      exact agrees_ite (fun _ => .inr ⟨_, rfl⟩) fun _ => ih

theorem scanLoop_agrees : Agrees (scanLoop fuel off idBefore ((f, d), seen))
    (WalFile.scanLoop fuel off idBefore (f, d)) := by
  induction fuel generalizing f d off idBefore seen with
  | zero => exact .inr ⟨seen, rfl⟩
  | succ fuel ih =>
    rw [scanLoop, WalFile.scanLoop, get_bind, get_bind]
    refine agrees_ite (fun _ => .inr ⟨_, rfl⟩) fun _ => ?_
    rw [attempt_bind, readRecord_eq]
    rcases f.readRecordUnchecked d.disk off with e | r
    · cases e <;> exact .inr ⟨_, rfl⟩
    refine agrees_ite (fun _ => .inr ⟨_, rfl⟩) fun _ => agrees_idGap fun _ =>
      agrees_ite (fun _ => .inr ⟨_, rfl⟩) fun _ =>
      agrees_ite (fun _ => .inr ⟨_, rfl⟩) fun _ => agrees_addU32 ?_
    conv_rhs => rw [← bind_assoc']
    exact (agrees_ofFile _ _).bind fun _ s seen => agrees_addU32 <|
      agrees_ite (fun _ => .inr ⟨_, rfl⟩) fun _ => ih

/-- **The deep check of a build with overflow checks** overflows or does what it does without. -/
theorem checkRepair_agrees {heal : Bool} : Agrees (checkRepair heal ((f, d), seen))
    (WalFile.checkRepairDataIntegrity heal (f, d)) := by
  rw [checkRepair, WalFile.checkRepairDataIntegrity, get_bind, get_bind]
  simp only
  cases f.dataStart with
  | none => exact scanLoop_agrees
  | some start =>
    cases f.dataEnd with
    | none => exact .inr ⟨_, rfl⟩
    | some dataEnd =>
      refine checkLoop_agrees.bind fun r s seen => ?_
      cases r with
      | none => exact .inr ⟨_, rfl⟩
      | some r => exact scanLoop_agrees

theorem readLogsLoop_agrees {lo hi offset : ℕ} {memo : Option LogReadMemo} {buf : List Entry} :
    Agrees (readLogsLoop lo hi fuel off offset memo buf ((f, d), seen))
      (f.readLogsLoop d.disk lo hi fuel off offset memo buf, f, d) := by
  induction fuel generalizing off offset buf seen with
  | zero => exact .inr ⟨seen, rfl⟩
  | succ fuel ih =>
    rw [readLogsLoop, WalFile.readLogsLoop]
    have hread := readRecord_eq f d off seen
    rcases hr : f.readRecordUnchecked d.disk off with e | r <;> rw [hr] at hread
    · rw [bind_error hread]
      exact .inr ⟨_, rfl⟩
    rw [bind_ok hread]
    simp only
    generalize (if r.logId = lo then off else offset) = offset
    generalize (if lo ≤ r.logId then buf ++ [(r.logId, r.data)] else buf) = buf
    split_ifs
    · exact .inr ⟨_, rfl⟩
    · exact .inr ⟨_, rfl⟩
    · exact agrees_addU32 (.inr ⟨_, rfl⟩)
    · exact agrees_addU32 ih

theorem readLogs_agrees {lo hi : ℕ} {memo : Option LogReadMemo} :
    Agrees (readLogs lo hi memo ((f, d), seen)) (f.readLogs d.disk lo hi memo, f, d) := by
  rw [readLogs, WalFile.readLogs, get_bind]
  simp only
  split_ifs
  iterate 3 exact .inr ⟨_, rfl⟩
  cases f.dataStart with
  | none => exact .inr ⟨_, rfl⟩
  | some dataStart =>
    cases f.dataEnd with
    | none => exact .inr ⟨_, rfl⟩
    | some dataEnd =>
      simp only [unwrap_some, pure_bind, readStart, WalFile.readStart]
      cases memo with
      | none => exact readLogsLoop_agrees
      | some m =>
        simp only
        split_ifs
        · exact agrees_addU32 readLogsLoop_agrees
        · exact readLogsLoop_agrees

end

/-! ## The loops -/

theorem add_of_lt {w a c : ℕ} (h : a + c < 2 ^ w) : add w a c = pure (a + c) := if_pos h

theorem idGap_max (logId : ℕ) : idGap (some u64Max) logId = stop .overflow := by
  rw [idGap, add, if_neg (by norm_num [u64Max]), stop_bind]

theorem idGap_of_ne {logId : ℕ} (hid : ∀ id ∈ idBefore, id < 2 ^ 64)
    (hmax : idBefore ≠ some u64Max) :
    idGap idBefore logId = pure (WalFile.idGap idBefore logId) := by
  cases idBefore with
  | none => rfl
  | some id =>
    have h1 := hid id rfl
    have h2 : id ≠ u64Max := fun h => hmax (congrArg some h)
    rw [u64Max] at h2
    rw [idGap, add_of_lt (show id + 1 < 2 ^ 64 by omega), pure_bind, WalFile.idGap,
      addU64_of_lt (show id + 1 < 2 ^ 64 by omega)]

theorem readRecord_some (hread : f.Readable d.disk ino)
    (hr : parseRecord (d.disk.inode ino).bytes f.lenMax off = some r) :
    readRecord off ((f, d), seen) = (.ok r, (f, d), seen ++ [off]) := by
  rw [readRecord_eq, hread.readRecord hr]
  rfl

variable (seen) in
theorem readRecord_none (hread : f.Readable d.disk ino)
    (hr : parseRecord (d.disk.inode ino).bytes f.lenMax off = none) :
    ∃ e, readRecord off ((f, d), seen) =
      (.error (.stop (.err e)), (f, d), seen ++ [off]) := by
  obtain ⟨e, he⟩ := hread.readRecord_none hr
  exact ⟨e, by rw [readRecord_eq, he]; rfl⟩

theorem ofFile_ok {x : FileM α} {s s' : WalFile × WalDev} {a : α} (h : x s = (.ok a, s')) :
    ofFile x (s, seen) = (.ok a, s', seen) := by
  rw [ofFile]
  simp only [h]

variable [Crc]

section

variable (hread : f.Readable d.disk ino) (hm : f.mmapMut = some ino) (hmax : f.lenMax < u32Max)
include hread hm hmax

theorem scanLoop_ends {dataEnd idUntil : ℕ} (hoff : 18 ≤ off) (hn : Noted f.lenMax off seen)
    (hid : ∀ id ∈ idBefore, id < 2 ^ 64) (hfuel : 0 < fuel) (hfuel' : f.lenMax < off + fuel) :
    Ends f.lenMax
      (Overruns (d.disk.inode ino).bytes f.lenMax dataEnd idUntil false off idBefore)
      (scanLoop fuel off idBefore ((f, d), seen)) := by
  induction fuel generalizing f d off idBefore seen with
  | zero => omega
  | succ fuel ih =>
    rw [scanLoop, get_bind]
    simp only
    by_cases hend : off + 8 + 4 + 4 > f.lenMax
    · rw [if_pos hend]
      exact ends_ok (not_overruns_of_none (by rw [parseRecord, if_pos (by omega)])) hn.few
    rw [if_neg hend, attempt_bind]
    cases hr : parseRecord (d.disk.inode ino).bytes f.lenMax off with
    | none =>
      obtain ⟨e, he⟩ := readRecord_none seen hread hr
      rw [he]
      exact ends_ok (not_overruns_of_none hr) hn.few_concat
    | some r =>
      obtain ⟨hpos, hfit, hlt, -⟩ := parseRecord_eq_some hr
      rw [readRecord_some hread hr]
      simp only
      by_cases hzero : r.logId = 0
      · rw [if_pos hzero]
        refine ends_ok ?_ hn.few_concat
        rintro (⟨hr', h⟩ | ⟨hr', h, -⟩) <;> cases hr.symm.trans hr' <;> simp [hzero] at h
      rw [if_neg hzero]
      by_cases hu : idBefore = some u64Max
      · subst hu
        rw [idGap_max, stop_bind]
        exact ⟨fun _ => rfl, fun h => absurd (.here hr (.inr hzero)) h⟩
      rw [idGap_of_ne hid hu, pure_bind, overruns_iff hr hu]
      by_cases hgap : WalFile.idGap idBefore r.logId = true
      · rw [if_pos hgap]
        exact ends_ok (by simp [hgap]) hn.few_concat
      rw [if_neg hgap]
      by_cases hcrc : r.crc = crcBytes r.data
      swap
      · rw [if_pos hcrc]
        exact ends_ok (by simp [hcrc]) hn.few_concat
      rw [u32Max] at hmax
      rw [if_neg (not_not_intro hcrc), WalRecord.len, add_of_lt (by omega), add_of_lt (by omega),
        pure_bind]
      -- the adopted record changes bytes of the header only
      set g : WalFile := { f with
        idUntil := r.logId
        dataStart := if f.dataStart.isNone then some off else f.dataStart
        dataEnd := some (off + (8 + 4 + 4 + r.data.length)) } with hg
      have hre := Rehead.header ino d g.toHeader
      rw [bind_ok (ofFile_ok (eq_ok_of_wp ?_ :
        _ = (Except.ok (), g, d.emit (.write ino .header 0 (buildHeader g.toHeader))))), pure_bind]
      swap
      · rw [wp_bind, WalFile.wp_modifyFile, WalFile.wp_updateHeader (by exact hm)
          (by rw [hread.len, offsetLogs]; omega)]
        exact ⟨rfl, rfl⟩
      have hnext : off + (8 + 4 + 4 + r.data.length + 1) = off + 17 + r.data.length := by omega
      simp only [hzero, hgap, hcrc, ne_eq, not_false_eq_true, or_true, true_and, Bool.false_and,
        hnext, overruns_iff_of_agree ((hre.bytes f.lenMax).mono
          (show offsetLogs ≤ off + 17 + r.data.length by rw [offsetLogs]; omega) le_rfl)]
      by_cases hfull : f.lenMax ≤ off + 17 + r.data.length
      · rw [if_pos hfull]
        exact ends_ok (not_overruns_of_none (by rw [parseRecord, if_pos (by omega)]))
          (hn.next hpos hfit).few
      · rw [if_neg hfull]
        exact ih (f := g) ⟨hread.map, hre.len.trans hread.len⟩ hm (by rw [u32Max]; exact hmax)
          (by omega) (hn.next hpos hfit) (by simpa using hlt) (by omega)
          (by simp only [hg]; omega)

theorem checkFrom_ends {heal : Bool} {dataEnd fuel' : ℕ} (hn : Noted f.lenMax off seen)
    (hid : ∀ id ∈ idBefore, id < 2 ^ 64) (hoff : idBefore.isSome → off ≠ 0) (hfuel : 0 < fuel)
    (hfuel' : f.lenMax < off + fuel) (hscan : f.lenMax < fuel') : Ends f.lenMax
      (Overruns (d.disk.inode ino).bytes f.lenMax dataEnd f.idUntil true off idBefore)
      (checkFrom heal dataEnd fuel fuel' off idBefore ((f, d), seen)) := by
  induction fuel generalizing off idBefore seen with
  | zero => omega
  | succ fuel ih =>
    rw [checkFrom, checkLoop, bind_assoc']
    cases hr : parseRecord (d.disk.inode ino).bytes f.lenMax off with
    | none =>
      obtain ⟨e, he⟩ := readRecord_none seen hread hr
      rw [bind_error he]
      exact ends_err (not_overruns_of_none hr) hn.few_concat
    | some r =>
      obtain ⟨hpos, hfit, hlt, -⟩ := parseRecord_eq_some hr
      rw [bind_ok (readRecord_some hread hr), bind_assoc']
      by_cases hu : idBefore = some u64Max
      · subst hu
        rw [idGap_max, stop_bind]
        exact ⟨fun _ => rfl, fun h => absurd (.here hr (.inl rfl)) h⟩
      rw [idGap_of_ne hid hu, pure_bind, overruns_iff hr hu]
      by_cases hgap : WalFile.idGap idBefore r.logId = true
      · rw [if_pos hgap, stop_bind]
        exact ends_err (by simp [hgap]) hn.few_concat
      have hne : r.data ≠ [] := ne_nil_of_length_pos hpos
      rw [if_neg hgap]
      by_cases hcrc : r.crc = crcBytes r.data
      swap
      · rw [if_pos (.inl hcrc)]
        have hc : ¬ (r.crc = crcBytes r.data ∧ Overruns (d.disk.inode ino).bytes f.lenMax dataEnd
          f.idUntil (true && !decide (dataEnd < off + 17 + r.data.length ∨ r.logId = f.idUntil))
          (off + 17 + r.data.length) (some r.logId)) := fun h => hcrc h.1
        cases heal with
        | false => exact ends_err (fun h => hc h.2.2) hn.few_concat
        | true =>
          rw [if_pos rfl, if_neg fun h => hoff h.1 h.2, bind_ok (ofFile_ok
            (eq_ok_of_wp ?_ : _ = (Except.ok none, f.rollBack idBefore off,
              d.emit (.write ino .nullId off (toBe 8 0)))))]
          · exact ends_ok (fun h => hc h.2.2) hn.few_concat
          · have hm' : (f.rollBack idBefore off).mmapMut = some ino := by
              cases idBefore <;> exact hm
            rw [wp_bind, WalFile.wp_modifyFile, wp_bind, WalFile.wp_writeSlice hm'
              (by omega) (by rw [hread.len]; omega) (by simp)]
            exact ⟨rfl, rfl⟩
      have hlt' := hmax
      rw [u32Max] at hlt'
      rw [if_neg (by simp [hcrc, hne]), WalRecord.len, add_of_lt (by omega), pure_bind,
        bind_assoc', get_bind]
      have hnext : off + (8 + 4 + 4 + r.data.length + 1) = off + 17 + r.data.length := by omega
      simp only [hgap, hcrc, true_or, true_and, Bool.true_and, hnext, gt_iff_lt]
      by_cases hexit : dataEnd < off + 17 + r.data.length ∨ r.logId = f.idUntil
      · rw [if_pos hexit, pure_bind]
        simp only [hexit, decide_true, Bool.not_true]
        exact scanLoop_ends hread hm hmax (by omega) (hn.next hpos hfit) (by simpa using hlt)
          (by omega) (by omega)
      · rw [if_neg hexit]
        simp only [hexit, decide_false, Bool.not_false]
        exact ih (hn.next hpos hfit) (by simpa using hlt) (by omega) (by omega) (by omega)

/-- **The deep check** overflows where the ids overrun, and is safe everywhere else. -/
theorem checkRepair_ends {heal : Bool} (hends : f.dataStart.isSome → f.dataEnd.isSome) :
    Ends f.lenMax (f.toHeader.Overruns (d.disk.inode ino).bytes f.lenMax)
      (checkRepair heal ((f, d), [])) := by
  rw [checkRepair, get_bind, Header.Overruns]
  cases hs : f.dataStart with
  | none =>
    simp only [hs, Option.isSome_none, Option.getD_none]
    exact scanLoop_ends hread hm hmax (by decide) .nil nofun (by omega) (by omega)
  | some start =>
    obtain ⟨dataEnd, he⟩ := Option.isSome_iff_exists.mp (hends (by simp [hs]))
    simp only [hs, he, Option.isSome_some, Option.getD_some, unwrap_some, pure_bind]
    exact checkFrom_ends hread hm hmax .nil nofun nofun (by omega) (by omega) (by omega)

end

/-! ## Reading -/

/-- The memo does not end with the last offset. -/
def MemoOk (memo : Option LogReadMemo) : Prop := ∀ m ∈ memo, m.dataEnd < u32Max

variable {memo : Option LogReadMemo}

theorem readLogsLoop_safe {lo hi offset : ℕ} {buf : List Entry} (hread : f.Readable d.disk ino)
    (hmax : f.lenMax < u32Max) (hn : Noted f.lenMax off seen) (hmemo : MemoOk memo)
    (hfuel : 0 < fuel) (hfuel' : f.lenMax < off + fuel) :
    Safe f.lenMax (readLogsLoop lo hi fuel off offset memo buf ((f, d), seen)) ∧
      ∀ a, (readLogsLoop lo hi fuel off offset memo buf ((f, d), seen)).1 = .ok a →
        MemoOk a.2.1 := by
  induction fuel generalizing off offset seen buf with
  | zero => omega
  | succ fuel ih =>
    rw [readLogsLoop]
    cases hr : parseRecord (d.disk.inode ino).bytes f.lenMax off with
    | none =>
      obtain ⟨e, he⟩ := readRecord_none seen hread hr
      rw [bind_error he]
      exact ⟨(ends_err not_false hn.few_concat).2 not_false, fun _ h => by cases h⟩
    | some r =>
      obtain ⟨hpos, hfit, -⟩ := parseRecord_eq_some hr
      have hlt := hmax
      rw [u32Max] at hlt
      rw [bind_ok (readRecord_some hread hr), WalRecord.len, add_of_lt (by omega),
        add_of_lt (by omega)]
      simp only
      generalize (if r.logId = lo then off else offset) = offset
      generalize (if lo ≤ r.logId then buf ++ [(r.logId, r.data)] else buf) = buf
      split_ifs
      · exact ⟨⟨(fun _ h => by cases h), hn.few_concat⟩, fun a ha => by cases ha; exact hmemo⟩
      · exact ⟨(ends_err not_false hn.few_concat).2 not_false, fun _ h => by cases h⟩
      · refine ⟨⟨(fun _ h => by cases h), hn.few_concat⟩, fun a ha m hm' => ?_⟩
        cases ha
        cases hm'
        simp only [u32Max]
        omega
      · have hnext : off + (8 + 4 + 4 + r.data.length + 1) = off + 17 + r.data.length := by omega
        rw [pure_bind, hnext]
        exact ih (hn.next hpos hfit) (by omega) (by omega)

omit [Crc] in
theorem readStart_ok (f : WalFile) (lo dataStart : ℕ) (hmemo : MemoOk memo) :
    ∃ idx, readStart f lo dataStart memo = pure idx := by
  cases memo with
  | none => exact ⟨_, rfl⟩
  | some m =>
    have := hmemo m rfl
    rw [u32Max] at this
    rw [readStart, add_of_lt (show m.dataEnd + 1 < 2 ^ 32 by omega)]
    split_ifs
    · exact ⟨_, rfl⟩
    · exact ⟨_, rfl⟩

theorem readLogs_safe_iff {lo hi : ℕ} (hread : f.Readable d.disk ino) (hmax : f.lenMax < u32Max)
    (hlo : f.idFrom ≤ lo) (hle : lo ≤ hi) (hhi : hi ≤ f.idUntil) (hmemo : MemoOk memo) :
    (Safe f.lenMax (readLogs lo hi memo ((f, d), [])) ∧
      ∀ a, (readLogs lo hi memo ((f, d), [])).1 = .ok a → MemoOk a.2.1) ↔
      f.dataStart.isSome ∧ f.dataEnd.isSome := by
  rw [readLogs, get_bind]
  simp only
  rw [if_neg (by omega), if_neg (by omega), if_neg (by omega)]
  cases hs : f.dataStart with
  | none => exact ⟨fun h => absurd h.1 not_safe_panic, nofun⟩
  | some dataStart =>
    cases he : f.dataEnd with
    | none => exact ⟨fun h => absurd h.1 not_safe_panic, fun h => nomatch h.2⟩
    | some dataEnd =>
      obtain ⟨idx, hidx⟩ := readStart_ok f lo dataStart hmemo
      simp only [unwrap_some, hidx, pure_bind, Option.isSome_some, and_self, iff_true]
      exact readLogsLoop_safe hread hmax .nil hmemo (by omega) (by omega)

/-- **Reading damaged files is safe** iff the offsets that are unwrapped are there and the ids do not
overrun: the deep check, and then every read of ids inside the file with a memo that a read left. -/
theorem damaged_reads_safe_iff {heal : Bool} {lo hi : ℕ} {memo : Option LogReadMemo}
    (hread : f.Readable d.disk ino) (hm : f.mmapMut = some ino) (hmax : f.lenMax < u32Max)
    (hlo : f.idFrom ≤ lo) (hle : lo ≤ hi) (hhi : hi ≤ f.idUntil) (hmemo : MemoOk memo) :
    (Safe f.lenMax (checkRepair heal ((f, d), [])) ↔
      (f.dataStart.isSome → f.dataEnd.isSome) ∧
        ¬ f.toHeader.Overruns (d.disk.inode ino).bytes f.lenMax) ∧
    ((Safe f.lenMax (readLogs lo hi memo ((f, d), [])) ∧
      ∀ a, (readLogs lo hi memo ((f, d), [])).1 = .ok a → MemoOk a.2.1) ↔
      f.dataStart.isSome ∧ f.dataEnd.isSome) := by
  refine ⟨?_, readLogs_safe_iff hread hmax hlo hle hhi hmemo⟩
  by_cases hends : f.dataStart.isSome → f.dataEnd.isSome
  · rw [(checkRepair_ends hread hm hmax hends).safe_iff, and_iff_right hends]
  · refine ⟨fun h => ?_, fun h => absurd h.1 hends⟩
    obtain ⟨hs, he⟩ := Classical.not_imp.mp hends
    obtain ⟨start, hs⟩ := Option.isSome_iff_exists.mp hs
    rw [Option.not_isSome_iff_eq_none] at he
    rw [checkRepair, get_bind] at h
    simp only [hs, he, unwrap_none, stop_bind] at h
    exact absurd h not_safe_panic

/-- A file of 128 bytes. -/
def smallFile (idUntil : ℕ) (dataStart dataEnd : Option ℕ) : WalFile :=
  ⟨⟨0, idUntil, dataStart, dataEnd⟩, 1, 128, none, some 0⟩

def smallDev (b : Region) : WalDev := Dev.ofDisk ⟨fun _ => ⟨128, b⟩, 1, [], ⟨⟨none, none⟩, false⟩⟩

omit [Crc] in
/-- Null bytes where a record should be. -/
theorem damaged_reads_safe_null : let := cksum
    Safe 128 (checkRepair true ((smallFile 0 (some 32) (some 49), smallDev .zero), [])) ∧
      Safe 128 (readLogs 0 0 none ((smallFile 0 (some 32) (some 49), smallDev .zero), [])) := by
  intro _
  obtain ⟨hcheck, hlogs⟩ := @damaged_reads_safe_iff (smallFile 0 (some 32) (some 49))
    (smallDev .zero) 0 _ true 0 0 none ⟨rfl, rfl⟩ rfl (by decide) le_rfl le_rfl le_rfl nofun
  exact ⟨hcheck.mpr ⟨fun _ => rfl, not_overruns_of_none (by decide +kernel)⟩,
    (hlogs.mpr ⟨rfl, rfl⟩).1⟩

/-- A record with the id `u64::MAX` behind a header without data, and another record. -/
def lastIds : Region :=
  Region.zero.write 33 (toBe 8 u64Max ++ crcBytes [7] ++ toBe 4 1 ++ [7, 0] ++ toBe 8 1 ++
    toBe 4 0 ++ toBe 4 1 ++ [7])

omit [Crc] in
/-- **Accepted headers of files that cannot be read safely**: the id behind `u64::MAX` is computed, a
`data_start` has no `data_end`, and logs are read from a file without data. -/
theorem accepted_headers_unsafe : let := cksum
    (∀ f ∈ [smallFile 0 none none, smallFile 0 (some 32) none],
      (WalFileSet.checkIntegrity true false (⟨some 0, [f]⟩, smallDev lastIds)).1 = .ok ()) ∧
    (checkRepair true ((smallFile 0 none none, smallDev lastIds), [])).1 = .error .overflow ∧
    (checkRepair true ((smallFile 0 (some 32) none, smallDev lastIds), [])).1 =
      .error (.stop (.panic .unwrapDataEnd)) ∧
    (readLogs 0 0 none ((smallFile 0 none none, smallDev lastIds), [])).1 =
      .error (.stop (.panic .unwrapDataEnd)) := by
  intro _
  refine ⟨?_, by decide +kernel, by decide +kernel, by decide +kernel⟩
  simp only [mem_cons, not_mem_nil, or_false]
  rintro f (rfl | rfl)
  · rfl
  · rfl

end Checked

end Hiqlite.Wal
