import Hiqlite.Lib.Text

/-!
# B4 — the cleanup of local backups

**`cleanup_exact_iff`**: what `backup_local_cleanup` removes is what has expired, unless other entries
have names that pass for backups; `cleanup_removes_report`: the suffix alone is enough.
-/

namespace Hiqlite.Backup

open List

/-- A file name, which need not be a text. -/
abbrev OsName := List Char ⊕ List UInt8

/-- What is neither a directory nor a regular file is, for example, a link. -/
inductive FileKind
  | dir
  | file
  | other
  deriving DecidableEq

abbrev Entries := OsName → Option FileKind

def stripSuffix (suffix s : List Char) : List Char :=
  if suffix.isSuffixOf s then s.take (s.length - suffix.length) else s

/-- The time in a name, if the name passes for that of a backup. -/
def cleanupTs (sOrig : List Char) : Option ℤ :=
  let s := stripSuffix ['~'] sOrig
  if !"backup_node_".toList.isPrefixOf s && !".sqlite".toList.isSuffixOf s then none
  else parseInt ((rsplitOnce '_' (stripSuffix ".sqlite".toList s)).getD ([], [])).2

/-- `ts > ts_min && ts < ts_threshold` -/
def InWindow (tsThreshold ts : ℤ) : Prop := 1704063600 < ts ∧ ts < tsThreshold

instance (t : ℤ) : DecidablePred (InWindow t) := fun _ => inferInstanceAs (Decidable (_ ∧ _))

def removes (tsThreshold : ℤ) : Option FileKind → OsName → Bool
  | some .file, .inl s | some .other, .inl s => (cleanupTs s).any (InWindow tsThreshold)
  | _, _ => false

def cleanupEntry (tsThreshold : ℤ) (d : Entries) (name : OsName) : Entries :=
  if removes tsThreshold (d name) name then Function.update d name none else d

/-- `Utc::now().sub(keep_for).timestamp()`, from nanoseconds. -/
def threshold (now : ℤ) (keepFor : ℕ) : ℤ := (now - keepFor) / 10 ^ 9

/-- `backup_local_cleanup`, for the names that `read_dir` lists. -/
def backupLocalCleanup (now : ℤ) (keepFor : ℕ) (listing : List OsName) (d : Entries) : Entries :=
  listing.foldl (cleanupEntry (threshold now keepFor)) d

/-- `backup_node_{node_id}_{ts}.sqlite`, and `~` behind it until it is complete. -/
def IsBackup (s : List Char) (ts : Int64) : Prop :=
  ∃ nodeId : UInt64, ∃ tail ∈ [[], ['~']], s = "backup_node_".toList ++
    (Nat.toDigits 10 nodeId.toNat ++ '_' :: showInt ts.toInt) ++ ".sqlite".toList ++ tail

/-- A regular file with the name of a backup that is out of date. -/
def Expired (tsThreshold : ℤ) (k : Option FileKind) (name : OsName) : Prop :=
  k = some .file ∧ ∃ s ts, name = .inl s ∧ IsBackup s ts ∧ InWindow tsThreshold ts.toInt

variable {now t : ℤ} {keepFor : ℕ} {listing : List OsName} {d : Entries} {name : OsName}
  {s : List Char} {k : Option FileKind}

theorem stripSuffix_append (suffix s : List Char) : stripSuffix suffix (s ++ suffix) = s := by
  rw [stripSuffix, if_pos (by simp), length_append, Nat.add_sub_cancel]
  simp

theorem cleanupTs_of_isBackup {ts : Int64} (h : IsBackup s ts) (hts : InWindow t ts.toInt) :
    cleanupTs s = some ts.toInt := by
  obtain ⟨nodeId, tail, htail, rfl⟩ := h
  obtain ⟨n, hn⟩ := Int.eq_ofNat_of_zero_le (show 0 ≤ ts.toInt by unfold InWindow at hts; omega)
  have hlt : n < 2 ^ 63 := by have := ts.toInt_lt; omega
  rw [hn, showInt_natCast]
  generalize hx : "backup_node_".toList ++ (Nat.toDigits 10 nodeId.toNat ++ '_' :: Nat.toDigits 10 n) = x
  have hstrip : stripSuffix ['~'] (x ++ ".sqlite".toList ++ tail) = x ++ ".sqlite".toList := by
    rcases mem_pair.mp htail with rfl | rfl
    · rw [stripSuffix, if_neg, append_nil]
      rw [append_nil, isSuffixOf_iff_suffix, singleton_suffix_iff_getLast?_eq_some]
      simp
    · exact stripSuffix_append _ _
  have hsplit : rsplitOnce '_' x =
      some ("backup_node_".toList ++ Nat.toDigits 10 nodeId.toNat, Nat.toDigits 10 n) := by
    rw [← hx, ← append_assoc]
    exact rsplitOnce_append (not_mem_toDigits n (by decide))
  rw [cleanupTs, hstrip, if_neg (by simp), stripSuffix_append, hsplit]
  exact parseInt_toDigits hlt

theorem removes_of_expired (h : Expired t k name) : removes t k name = true := by
  obtain ⟨rfl, s, ts, rfl, hs, hts⟩ := h
  simp [removes, cleanupTs_of_isBackup hs hts, hts]

theorem cleanupEntry_eq {x : OsName} (h : x = name → removes t (d x) x = false) :
    cleanupEntry t d x name = d name := by
  unfold cleanupEntry
  split
  case isTrue hx =>
    rw [Function.update_of_ne]
    rintro rfl
    simp [h rfl] at hx
  case isFalse => rfl

theorem foldl_cleanup_keeps (hd : removes t (d name) name = false) :
    listing.foldl (cleanupEntry t) d name = d name := by
  induction listing generalizing d with
  | nil => rfl
  | cons x listing ih =>
    have hx : cleanupEntry t d x name = d name := cleanupEntry_eq fun he => he ▸ hd
    rw [foldl_cons, ih (by rwa [hx]), hx]

theorem foldl_cleanup_removes (hd : removes t (d name) name = true) (hmem : name ∈ listing) :
    listing.foldl (cleanupEntry t) d name = none := by
  induction listing generalizing d with
  | nil => cases hmem
  | cons x listing ih =>
    rw [foldl_cons]
    by_cases hx : x = name
    · subst hx
      have hnone : cleanupEntry t d x x = none := by
        rw [cleanupEntry, if_pos hd, Function.update_self]
      rw [foldl_cleanup_keeps (by rw [hnone]; rfl), hnone]
    · have hsame : cleanupEntry t d x name = d name := cleanupEntry_eq fun he => absurd he hx
      exact ih (by rwa [hsame]) ((mem_cons.mp hmem).resolve_left (Ne.symm hx))

/-- **The cleanup is exact** if and only if every entry whose name passes for that of an old backup
is a regular file with the full name of a backup. -/
theorem cleanup_exact_iff (hlist : ∀ name, d name ≠ none → name ∈ listing) :
    (∀ name, (Expired (threshold now keepFor) (d name) name →
        backupLocalCleanup now keepFor listing d name = none) ∧
      (¬ Expired (threshold now keepFor) (d name) name →
        backupLocalCleanup now keepFor listing d name = d name)) ↔
    ∀ name, removes (threshold now keepFor) (d name) name = true →
      Expired (threshold now keepFor) (d name) name := by
  have hmem (name : OsName) (h : removes (threshold now keepFor) (d name) name = true) :
      d name ≠ none := by
    intro hnone
    simp [hnone, removes] at h
  constructor
  · intro hexact name hrem
    by_contra hnot
    have hkept := (hexact name).2 hnot
    rw [backupLocalCleanup, foldl_cleanup_removes hrem (hlist name (hmem name hrem))] at hkept
    exact hmem name hrem hkept.symm
  · intro hall name
    refine ⟨fun hexp => ?_, fun hnot => ?_⟩
    · have hrem := removes_of_expired hexp
      exact foldl_cleanup_removes hrem (hlist name (hmem name hrem))
    · exact foldl_cleanup_keeps (Bool.eq_false_iff.mpr fun hrem => hnot (hall name hrem))

def oneFile (s : List Char) : Entries := fun name => if name = .inl s then some .file else none

def orphan : List Char := "backup_node_1_1704063601.sqlite~".toList

def fresh : List Char := "backup_node_1_1799990000.sqlite".toList

/-- An old rest of a backup, and a backup of the last day. -/
def twoFiles : Entries := fun name =>
  if name = .inl orphan ∨ name = .inl fresh then some .file else none

def dayInNanos : ℕ := 86400 * 10 ^ 9

def cleaned : Entries :=
  backupLocalCleanup (1800000000 * 10 ^ 9) dayInNanos [.inl orphan, .inl fresh] twoFiles

theorem cleanup_exact_two : cleaned (.inl orphan) = none ∧ cleaned (.inl fresh) = some .file := by
  have hexp : Expired (threshold (1800000000 * 10 ^ 9) dayInNanos) (twoFiles (.inl orphan))
      (.inl orphan) := ⟨if_pos (.inl rfl), _, 1704063601, rfl, ⟨1, ['~'], by decide, by decide⟩, by decide⟩
  have hstays : removes (threshold (1800000000 * 10 ^ 9) dayInNanos) (twoFiles (.inl fresh))
      (.inl fresh) = false := by decide
  have hname (name : OsName) (h : twoFiles name ≠ none) : name = .inl orphan ∨ name = .inl fresh :=
    by_contra fun hne => h (if_neg hne)
  have hlist (name : OsName) (h : twoFiles name ≠ none) : name ∈ [.inl orphan, .inl fresh] := by
    simpa using hname name h
  have hexact := (cleanup_exact_iff hlist).mpr fun name h => by
    rcases hname name fun hnone => by simp [hnone, removes] at h with rfl | rfl
    · exact hexp
    · rw [hstays] at h
      cases h
  exact ⟨(hexact _).1 hexp, (hexact _).2 fun h => by
    rw [removes_of_expired h] at hstays
    cases hstays⟩

/-- **A report** of an operator is removed: its name has the suffix. -/
theorem cleanup_removes_report :
    backupLocalCleanup (1800000000 * 10 ^ 9) 1 [.inl "report_1704063601.sqlite".toList]
      (oneFile "report_1704063601.sqlite".toList) (.inl "report_1704063601.sqlite".toList) = none ∧
    ¬ ∃ ts, IsBackup "report_1704063601.sqlite".toList ts := by
  refine ⟨by decide, ?_⟩
  rintro ⟨ts, nodeId, tail, -, h⟩
  simpa using congrArg head? h

end Hiqlite.Backup
