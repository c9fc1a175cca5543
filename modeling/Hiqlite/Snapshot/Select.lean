import Hiqlite.Lib.Text
import Hiqlite.Raft.Types

/-!
# S1 — the current snapshot

Both state machines find their current snapshot by listing a directory
(`read_current_snapshot`). The cache goes by the time at the start of the file name, SQLite by the
time-ordered UUID that is the file name.

* **`current_snapshot_is_highest`**: as long as the names are in the order of the snapshots;
  `skewed_clock_finds_older`.
-/

namespace Hiqlite.Snapshot

open List Option

structure DirEntry (N C : Type) where
  name : N
  isDir : Bool
  content : C
  deriving DecidableEq

inductive ReadError
  | content
  | assertId
  deriving DecidableEq

/-- The snapshots on disk: a later one with the same name replaces the file. -/
def place {N C : Type} [DecidableEq N] (files : List (N × C)) (name : N) (content : C) :
    List (N × C) :=
  files.filter (fun f => f.1 ≠ name) ++ [(name, content)]

/-- The directory after the snapshots `snaps`, in which a file is named `name s`. -/
def directory {S N : Type} [DecidableEq N] (name : S → N) (snaps : List S) : List (N × S) :=
  snaps.foldl (fun files s => place files (name s) s) []

section Directory

variable {S N : Type} [DecidableEq N] {name : S → N} {snaps : List S}

theorem directory_concat (snaps : List S) (s : S) :
    directory name (snaps ++ [s]) = place (directory name snaps) (name s) s := by
  simp [directory]

theorem mem_directory {f : N × S} (h : f ∈ directory name snaps) : f.2 ∈ snaps ∧ f.1 = name f.2 := by
  induction snaps using reverseRecOn with
  | nil => simp [directory] at h
  | append_singleton snaps s ih =>
    rw [directory_concat, place, mem_append, mem_singleton] at h
    rcases h with h | rfl
    · obtain ⟨h1, h2⟩ := ih (mem_of_mem_filter h)
      exact ⟨mem_append_left _ h1, h2⟩
    · simp

theorem last_mem_directory (name : S → N) (snaps : List S) (s : S) :
    (name s, s) ∈ directory name (snaps ++ [s]) := by
  rw [directory_concat, place]
  simp

theorem rel_last {R : S → S → Prop} {s u : S} (h : (snaps ++ [s]).Pairwise R)
    (hu : u ∈ snaps ++ [s]) : u = s ∨ R u s := by
  rcases mem_append.mp hu with hu | hu
  · exact .inr ((pairwise_append.mp h).2.2 u hu s (by simp))
  · exact .inl (mem_singleton.mp hu)

end Directory

/-! ## The cache -/

namespace Cache

/-- The id and file name of a snapshot that is built at the second `now`. -/
def snapshotId (leader : LeaderId → List Char) (now : ℤ) (last : Option LogId) : List Char :=
  match last with
  | some id => showInt now ++ '-' :: (leader id.leaderId ++ '-' :: Nat.toDigits 10 id.index)
  | none => showInt now ++ ['-', '-']

def skipped (name : List Char) : Bool :=
  (['~'] : List Char).isSuffixOf name || ".temp".toList.isSuffixOf name

def nameTs (name : List Char) : Option ℤ := (splitOnce '-' name).bind fun p => parseInt p.1

def nameIndex (name : List Char) : Option ℤ := (rsplitOnce '-' name).bind fun p => parseInt p.2

def pick {C : Type} (latest : Option (ℤ × List Char)) (e : DirEntry (List Char) C) :
    Option (ℤ × List Char) :=
  if skipped e.name then latest
  else if e.isDir then latest
  else
    match nameTs e.name with
    | none => latest
    | some ts =>
      match latest with
      | none => some (ts, e.name)
      | some (latestTs, latestName) =>
        if latestTs < ts then some (ts, e.name)
        else if ts = latestTs then
          -- may happen if 2 snapshots have been created at the exact same second
          match nameIndex e.name, nameIndex latestName with
          | some i, some j => if j < i then some (ts, e.name) else latest
          | _, _ => latest
        else latest

/-- `read_current_snapshot`. The content of a file that cannot be decoded is `none`. -/
def readCurrentSnapshot {C : Type} (list : List (DirEntry (List Char) (Option C))) :
    Except ReadError (Option (List Char × C)) :=
  match list.foldl pick none with
  | none => .ok none
  | some (_, name) =>
    match (list.find? fun e => e.name = name).bind DirEntry.content with
    | some content => .ok (some (name, content))
    | none => .error .content

variable {C : Type}

/-- The time and the name of a finished file. -/
def key (e : DirEntry (List Char) C) : Option (ℤ × List Char) :=
  if skipped e.name || e.isDir then none else (nameTs e.name).map fun ts => (ts, e.name)

def later (latest : Option (ℤ × List Char)) (x : ℤ × List Char) : Option (ℤ × List Char) :=
  match latest with
  | none => some x
  | some y =>
    if y.1 < x.1 then some x
    else if x.1 = y.1 then
      match nameIndex x.2, nameIndex y.2 with
      | some i, some j => if j < i then some x else some y
      | _, _ => some y
    else some y

theorem pick_eq (latest : Option (ℤ × List Char)) (e : DirEntry (List Char) C) :
    pick latest e = match key e with
      | some x => later latest x
      | none => latest := by
  unfold pick key
  by_cases h1 : skipped e.name = true
  · simp [h1]
  by_cases h2 : e.isDir = true
  · simp [h2]
  simp only [h1, h2, Bool.or_self, Bool.false_eq_true, if_false]
  cases nameTs e.name with
  | none => rfl
  | some ts =>
    cases latest with
    | none | some => rfl

theorem foldl_pick (l : List (DirEntry (List Char) C)) :
    l.foldl pick none = (l.filterMap key).foldl later none := by
  rw [foldl_filterMap]
  congr 1
  funext latest e
  rw [pick_eq]
  cases key e <;> rfl

/-- What the loop may end with: a file of the latest second and, if its names end with an index, the
highest one. -/
def Found (l : List (ℤ × List Char)) : Option (ℤ × List Char) → Prop
  | none => l = []
  | some x => x ∈ l ∧ (∀ y ∈ l, y.1 ≤ x.1) ∧
      ((∀ y ∈ l, y.1 = x.1 → nameIndex y.2 ≠ none) →
        ∀ y ∈ l, y.1 = x.1 → ∀ i ∈ nameIndex y.2, ∃ j ∈ nameIndex x.2, i ≤ j)

theorem found_of_lt {l : List (ℤ × List Char)} {x : ℤ × List Char} (h : ∀ y ∈ l, y.1 < x.1) :
    Found (l ++ [x]) (some x) := by
  have hcase : ∀ y ∈ l ++ [x], y.1 < x.1 ∨ y = x := by
    intro y hy
    exact (mem_append.mp hy).imp (h y) mem_singleton.mp
  refine ⟨by simp, fun y hy => ?_, fun _ y hy he i hi => ?_⟩
  · rcases hcase y hy with hlt | rfl
    · exact hlt.le
    · exact le_rfl
  · rcases hcase y hy with hlt | rfl
    · exact absurd he hlt.ne
    · exact ⟨i, hi, le_rfl⟩

theorem Found.later {l : List (ℤ × List Char)} {latest : Option (ℤ × List Char)}
    (h : Found l latest) (x : ℤ × List Char) : Found (l ++ [x]) (later latest x) := by
  cases latest with
  | none =>
    rw [show l = [] from h]
    exact found_of_lt (by simp)
  | some y =>
    obtain ⟨hmem, hmax, hidx⟩ := h
    have hsplit : ∀ z ∈ l ++ [x], z ∈ l ∨ z = x := by simp
    unfold Cache.later
    by_cases hlt : y.1 < x.1
    · simp only [if_pos hlt]
      exact found_of_lt fun z hz => (hmax z hz).trans_lt hlt
    by_cases heq : x.1 = y.1
    · -- the same second
      simp only [if_neg hlt, if_pos heq]
      have hle : ∀ z ∈ l ++ [x], z.1 ≤ y.1 := fun z hz =>
        (hsplit z hz).elim (hmax z) fun he => (he ▸ heq).le
      cases hi : nameIndex x.2 with
      | none =>
        exact ⟨by simp [hmem], hle, fun hall => absurd hi (hall x (by simp) heq)⟩
      | some i =>
        cases hj : nameIndex y.2 with
        | none =>
          exact ⟨by simp [hmem], hle, fun hall => absurd hj (hall y (by simp [hmem]) rfl)⟩
        | some j =>
          simp only
          have hold : (∀ z ∈ l ++ [x], z.1 = y.1 → nameIndex z.2 ≠ none) →
              ∀ z ∈ l, z.1 = y.1 → ∀ k ∈ nameIndex z.2, k ≤ j := by
            intro hall z hz he k hk
            obtain ⟨j', hj', hle⟩ := hidx (fun w hw => hall w (by simp [hw])) z hz he k hk
            rwa [← some.inj (hj.symm.trans hj')] at hle
          by_cases hji : j < i
          · rw [if_pos hji]
            refine ⟨by simp, fun z hz => heq ▸ hle z hz, fun hall z hz he k hk => ⟨i, hi, ?_⟩⟩
            rw [heq] at hall he
            rcases hsplit z hz with hz | rfl
            · exact (hold hall z hz he k hk).trans hji.le
            · exact (some.inj (hk.symm.trans hi)).le
          · rw [if_neg hji]
            refine ⟨by simp [hmem], hle, fun hall z hz he k hk => ⟨j, hj, ?_⟩⟩
            rcases hsplit z hz with hz | rfl
            · exact hold hall z hz he k hk
            · rw [some.inj (hk.symm.trans hi)]
              omega
    · -- an earlier second
      simp only [if_neg hlt, if_neg heq]
      refine ⟨by simp [hmem], fun z hz => ?_, fun hall z hz he => ?_⟩
      · rcases hsplit z hz with hz | rfl
        · exact hmax z hz
        · omega
      · rcases hsplit z hz with hz | rfl
        · exact hidx (fun w hw => hall w (by simp [hw])) z hz he
        · exact absurd he heq

theorem found_foldl (l : List (ℤ × List Char)) : Found l (l.foldl later none) := by
  induction l using reverseRecOn with
  | nil => rfl
  | append_singleton l x ih =>
    rw [foldl_append]
    exact ih.later x

/-! ### The names of a run -/

/-- The second in which a snapshot was built, and what it holds. -/
structure Snap where
  ts : ℤ
  last : Option LogId
  deriving DecidableEq

variable {leader : LeaderId → List Char} {a b f u : Snap} {snaps : List Snap}

def Snap.name (leader : LeaderId → List Char) (s : Snap) : List Char := snapshotId leader s.ts s.last

/-- The clock is past 1970, and the numbers of the name are in range. -/
def Snap.Dated (s : Snap) : Prop :=
  0 ≤ s.ts ∧ s.ts < 2 ^ 63 ∧ ∀ id ∈ s.last, id.index < 2 ^ 63

/-- `b` was made after `a`, not in the same second if nothing was applied before. -/
def Snap.Orderly (a b : Snap) : Prop :=
  a.ts ≤ b.ts ∧ (a.last = none → b.last ≠ none → a.ts < b.ts)

instance (s : Snap) : Decidable s.Dated := by unfold Snap.Dated; infer_instance

instance (a b : Snap) : Decidable (a.Orderly b) := by unfold Snap.Orderly; infer_instance

theorem Snap.Dated.nameTs_name (h : u.Dated) : nameTs (u.name leader) = some u.ts := by
  obtain ⟨h0, h1, -⟩ := h
  obtain ⟨n, hn⟩ := Int.eq_ofNat_of_zero_le h0
  obtain ⟨rest, hrest⟩ : ∃ rest, u.name leader = Nat.toDigits 10 n ++ '-' :: rest := by
    unfold Snap.name snapshotId
    rw [hn, showInt_natCast]
    cases u.last with
    | none => exact ⟨['-'], rfl⟩
    | some id => exact ⟨_, rfl⟩
  rw [nameTs, hrest, splitOnce_append (not_mem_toDigits n (by decide)), bind_some,
    parseInt_toDigits (by omega), hn]

theorem Snap.Dated.nameIndex_name (h : u.Dated) (leader : LeaderId → List Char) :
    nameIndex (u.name leader) = u.last.map fun id => (id.index : ℤ) := by
  unfold Snap.name snapshotId
  cases hl : u.last with
  | none =>
    simp only
    rw [nameIndex, show showInt u.ts ++ ['-', '-'] = (showInt u.ts ++ ['-']) ++ '-' :: [] by simp,
      rsplitOnce_append (by simp)]
    rfl
  | some id =>
    simp only
    rw [nameIndex, show showInt u.ts ++ '-' :: (leader id.leaderId ++ '-' :: Nat.toDigits 10 id.index)
        = (showInt u.ts ++ '-' :: leader id.leaderId) ++ '-' :: Nat.toDigits 10 id.index by simp,
      rsplitOnce_append (not_mem_toDigits _ (by decide)), bind_some,
      parseInt_toDigits (h.2.2 id hl)]
    rfl

theorem isSuffixOf_name (u : Snap) {l : List Char} {d : Char} (hd : l.getLast? = some d) (h1 : d ≠ '-')
    (h2 : d.isDigit = false) : l.isSuffixOf (u.name leader) = false := by
  obtain ⟨c, hc, hlast⟩ : ∃ c, (c = '-' ∨ c.isDigit = true) ∧ (u.name leader).getLast? = some c := by
    unfold Snap.name snapshotId
    cases u.last with
    | none => exact ⟨'-', .inl rfl, by simp⟩
    | some id =>
      have hne := toDigits_ne_nil id.index
      refine ⟨(Nat.toDigits 10 id.index).getLast hne, .inr (isDigit_of_mem (getLast_mem hne)), ?_⟩
      simp [getLast?_append, getLast?_cons, getLast?_eq_some_getLast hne]
  by_contra hs
  obtain ⟨t, ht⟩ : l <:+ u.name leader := by simpa using hs
  rw [← ht, getLast?_append, hd, some_or] at hlast
  cases hlast
  rcases hc with rfl | hc
  · exact h1 rfl
  · simp [h2] at hc

theorem skipped_name (u : Snap) : skipped (u.name leader) = false := by
  rw [skipped, isSuffixOf_name u (d := '~') rfl (by decide) (by decide),
    isSuffixOf_name u (d := 'p') (by decide) (by decide) (by decide)]
  rfl

def file (f : List Char × Snap) : DirEntry (List Char) (Option Snap) := ⟨f.1, false, some f.2⟩

/-- A listing of the directory after `snaps`, in any order. -/
def Lists (leader : LeaderId → List Char) (snaps : List Snap)
    (list : List (DirEntry (List Char) (Option Snap))) : Prop :=
  ∃ temps : List (DirEntry (List Char) (Option Snap)), (∀ e ∈ temps, skipped e.name = true) ∧
    list.Perm ((directory (Snap.name leader) snaps).map file ++ temps)

theorem lists_reverse (leader : LeaderId → List Char) (snaps : List Snap) :
    Lists leader snaps ((directory (Snap.name leader) snaps).map file).reverse :=
  ⟨[], by simp, by simp⟩

variable {list : List (DirEntry (List Char) (Option Snap))}

theorem Lists.mem_key (h : Lists leader snaps list) (hd : ∀ u ∈ snaps, u.Dated) {x : ℤ × List Char} :
    x ∈ list.filterMap key ↔
      ∃ u, (u.name leader, u) ∈ directory (Snap.name leader) snaps ∧ x = (u.ts, u.name leader) := by
  obtain ⟨temps, htemps, hperm⟩ := h
  rw [(hperm.filterMap key).mem_iff, filterMap_append, mem_append, filterMap_map]
  have hnone : x ∉ temps.filterMap key := by
    intro hx
    obtain ⟨e, he, hk⟩ := mem_filterMap.mp hx
    simp [key, htemps e he] at hk
  have hkey : ∀ f ∈ directory (Snap.name leader) snaps,
      key (file f) = some (f.2.ts, f.2.name leader) := by
    intro f hf
    obtain ⟨hmem, hname⟩ := mem_directory hf
    simp [key, file, hname, skipped_name, (hd f.2 hmem).nameTs_name]
  constructor
  · rintro (hx | hx)
    · obtain ⟨f, hf, hk⟩ := mem_filterMap.mp hx
      obtain ⟨-, hname⟩ := mem_directory hf
      rw [Function.comp_apply, hkey f hf] at hk
      exact ⟨f.2, hname ▸ hf, (some.inj hk).symm⟩
    · exact absurd hx hnone
  · rintro ⟨u, hu, rfl⟩
    exact .inl (mem_filterMap.mpr ⟨_, hu, hkey _ hu⟩)

theorem Lists.content (h : Lists leader snaps list) (hu : (u.name leader, u) ∈
    directory (Snap.name leader) snaps) : ∃ c ∈ snaps, c.name leader = u.name leader ∧
      (list.find? fun e => e.name = u.name leader).bind DirEntry.content = some c := by
  obtain ⟨temps, htemps, hperm⟩ := h
  have hin : file (u.name leader, u) ∈ list :=
    hperm.mem_iff.mpr (mem_append_left _ (mem_map_of_mem hu))
  obtain ⟨e, he⟩ := isSome_iff_exists.mp (find?_isSome.mpr
    (show ∃ e ∈ list, decide (e.name = u.name leader) = true from ⟨_, hin, by simp [file]⟩))
  have hname : e.name = u.name leader := by simpa using find?_some he
  rcases mem_append.mp (hperm.mem_iff.mp (mem_of_find?_eq_some he)) with hm | hm
  · obtain ⟨g, hg, rfl⟩ := mem_map.mp hm
    obtain ⟨hmem, hgname⟩ := mem_directory hg
    exact ⟨g.2, hmem, hgname.symm.trans hname, by rw [he]; rfl⟩
  · have hskip := htemps e hm
    rw [hname, skipped_name] at hskip
    exact absurd hskip (by simp)

theorem readCurrentSnapshot_eq (h : Lists leader (snaps ++ [f]) list)
    (hd : ∀ u ∈ snaps ++ [f], u.Dated) (hlast : (snaps ++ [f]).Pairwise fun a b => Precedes a.last b.last)
    (hord : (snaps ++ [f]).Pairwise Snap.Orderly) :
    ∃ name, ∃ c ∈ snaps ++ [f], readCurrentSnapshot list = .ok (some (name, c)) ∧
      c.last = f.last := by
  have hf := last_mem_directory (Snap.name leader) snaps f
  -- every snapshot is the last one or was made before it
  have hbefore : ∀ u ∈ snaps ++ [f], u = f ∨ Precedes u.last f.last ∧ u.Orderly f :=
    fun u hu => rel_last (hlast.and hord) hu
  have hfound := found_foldl (list.filterMap key)
  rw [readCurrentSnapshot, foldl_pick]
  have hfkey : (f.ts, f.name leader) ∈ list.filterMap key := (h.mem_key hd).mpr ⟨f, hf, rfl⟩
  cases hx : (list.filterMap key).foldl later none with
  | none =>
    rw [hx] at hfound
    rw [show list.filterMap key = [] from hfound] at hfkey
    exact absurd hfkey (by simp)
  | some x =>
    rw [hx] at hfound
    obtain ⟨hmem, hmax, hidx⟩ := hfound
    obtain ⟨u, hu, rfl⟩ := (h.mem_key hd).mp hmem
    have husnap : u ∈ snaps ++ [f] := (mem_directory hu).1
    obtain ⟨c, hc, hcname, hcontent⟩ := h.content hu
    have hts : ∀ v ∈ snaps ++ [f], f.ts ≤ v.ts → v.ts = f.ts := by
      intro v hv hle
      rcases hbefore v hv with rfl | ⟨-, ho⟩
      · rfl
      · exact le_antisymm ho.1 hle
    have hfu : u.ts = f.ts := hts u husnap (hmax _ hfkey)
    -- the snapshots of that second hold at least one entry if the last one does
    have hsome : ∀ v ∈ snaps ++ [f], v.ts = f.ts → f.last ≠ none → v.last ≠ none := by
      intro v hv ht hne
      rcases hbefore v hv with rfl | ⟨-, ho⟩
      · exact hne
      · exact fun hv => absurd ht (ho.2 hv hne).ne
    have hulast : u.last = f.last := by
      rcases hbefore u husnap with rfl | ⟨hprec, -⟩
      · rfl
      cases hfl : f.last with
      | none => exact (hfl ▸ hprec).eq_none
      | some b =>
        obtain ⟨a, ha⟩ := ne_none_iff_exists'.mp (hsome u husnap hfu (by simp [hfl]))
        obtain ⟨j, hj, hle⟩ := hidx (fun y hy hyt => by
          obtain ⟨v, hv, rfl⟩ := (h.mem_key hd).mp hy
          have hvs := (mem_directory hv).1
          have := hsome v hvs (hyt.trans hfu) (by simp [hfl])
          rw [(hd v hvs).nameIndex_name]
          simpa using this) _ hfkey hfu.symm b.index (by
            rw [(hd f (by simp)).nameIndex_name, hfl]
            rfl)
        rw [(hd u husnap).nameIndex_name, ha] at hj
        cases hj
        simp only at hle
        rw [ha, hfl] at hprec
        rw [ha, hprec.eq_of_index_le (by omega)]
    -- a file with the same name holds the same
    have hclast : c.last = u.last := by
      have hi : c.last.map (fun id => (id.index : ℤ)) = u.last.map fun id => (id.index : ℤ) := by
        rw [← (hd c hc).nameIndex_name leader, hcname, (hd u husnap).nameIndex_name]
      rcases hbefore c hc with rfl | ⟨hprec, -⟩
      · exact hulast.symm
      rw [hulast] at hi ⊢
      cases hcl : c.last with
      | none =>
        rw [hcl] at hi
        cases hfl : f.last with
        | none => rfl
        | some b => simp [hfl] at hi
      | some a =>
        rw [hcl] at hi hprec
        cases hfl : f.last with
        | none => simp [hfl] at hi
        | some b =>
          rw [hfl] at hi hprec
          have : a.index = b.index := by simpa using hi
          rw [hprec.eq_of_index_le (by omega)]
    exact ⟨u.name leader, c, hc, by simp only [hcontent], hclast.trans hulast⟩

end Cache

/-! ## SQLite -/

namespace Sqlite

/-- The names in the snapshot directory. A UUID is its 128-bit value. -/
inductive Name
  | snapshot (id : ℕ)
  /-- `<id>.tmp`, into which a snapshot is vacuumed. -/
  | building (id : ℕ)
  /-- `temp`, into which a snapshot is received. -/
  | receiving
  | other (s : String)
  deriving DecidableEq

def Name.uuid : Name → Option ℕ
  | .snapshot id => some id
  | _ => none

/-- The metadata in the database file of a snapshot. -/
structure Meta where
  lastApplied : Option LogId
  lastSnapshotId : Option ℕ
  deriving DecidableEq

def pick {C : Type} (snapshotId : Option ℕ) (e : DirEntry Name C) : Option ℕ :=
  match e.name.uuid with
  | none => snapshotId
  | some id =>
    if e.isDir then snapshotId
    else
      match snapshotId with
      | some curr => if curr < id then some id else some curr
      | none => some id

/-- `read_current_snapshot`. A file without metadata has the content `none`. -/
def readCurrentSnapshot (list : List (DirEntry Name (Option Meta))) :
    Except ReadError (Option (ℕ × Meta)) :=
  match list.foldl pick none with
  | none => .ok none
  | some id =>
    match (list.find? fun e => e.name = .snapshot id).bind DirEntry.content with
    | none => .error .content
    | some metadata =>
      if metadata.lastSnapshotId = some id then .ok (some (id, metadata)) else .error .assertId

def key {C : Type} (e : DirEntry Name C) : Option ℕ := if e.isDir then none else e.name.uuid

theorem foldl_pick {C : Type} (l : List (DirEntry Name C)) :
    l.foldl pick none = (l.filterMap key).max? := by
  have hstep : ∀ r (e : DirEntry Name C), pick r e = match key e with
      | some id => some ((r.map (max · id)).getD id)
      | none => r := by
    intro r e
    unfold pick key
    cases e.name.uuid with
    | none => simp
    | some id =>
      by_cases hdir : e.isDir = true
      · simp [hdir]
      · cases r with
        | none => simp [hdir]
        | some curr =>
          by_cases hlt : curr < id
          · simp [hdir, hlt, max_eq_right hlt.le]
          · simp [hdir, hlt, max_eq_left (not_lt.mp hlt)]
  induction l using reverseRecOn with
  | nil => rfl
  | append_singleton l e ih =>
    rw [foldl_append, foldl_cons, foldl_nil, ih, hstep, filterMap_append]
    cases hk : key e with
    | none => simp [hk]
    | some id =>
      rw [filterMap_cons_some hk, filterMap_nil]
      cases hl : l.filterMap key with
      | nil => rfl
      | cons a as =>
        rw [cons_append, max?_cons', max?_cons', foldl_append]
        rfl

structure Snap where
  id : ℕ
  last : Option LogId
  deriving DecidableEq

def Snap.name (s : Snap) : Name := .snapshot s.id

/-- `b` was made after `a`, under a later id unless it is the same snapshot. -/
def Snap.Orderly (a b : Snap) : Prop := a.id < b.id ∨ a = b

instance (a b : Snap) : Decidable (a.Orderly b) := by unfold Snap.Orderly; infer_instance

def file (f : Name × Snap) : DirEntry Name (Option Meta) := ⟨f.1, false, some ⟨f.2.last, some f.2.id⟩⟩

/-- A listing of the directory after `snaps`, in any order, with other files. -/
def Lists (snaps : List Snap) (list : List (DirEntry Name (Option Meta))) : Prop :=
  ∃ temps : List (DirEntry Name (Option Meta)), (∀ e ∈ temps, e.name.uuid = none) ∧
    list.Perm ((directory Snap.name snaps).map file ++ temps)

theorem lists_reverse (snaps : List Snap) :
    Lists snaps ((directory Snap.name snaps).map file).reverse :=
  ⟨[], by simp, by simp⟩

variable {snaps : List Snap} {f : Snap} {list : List (DirEntry Name (Option Meta))}

theorem readCurrentSnapshot_eq (h : Lists (snaps ++ [f]) list)
    (hord : (snaps ++ [f]).Pairwise Snap.Orderly) :
    readCurrentSnapshot list = .ok (some (f.id, ⟨f.last, some f.id⟩)) := by
  obtain ⟨temps, htemps, hperm⟩ := h
  have hf := last_mem_directory Snap.name snaps f
  have hbefore : ∀ u ∈ snaps ++ [f], u.id < f.id ∨ u = f :=
    fun u hu => (rel_last hord hu).elim .inr id
  have hmem : ∀ e ∈ list, (∃ u ∈ snaps ++ [f], e = file (u.name, u)) ∨ e.name.uuid = none := by
    intro e he
    rcases mem_append.mp (hperm.mem_iff.mp he) with hm | hm
    · obtain ⟨g, hg, rfl⟩ := mem_map.mp hm
      obtain ⟨hgmem, hgname⟩ := mem_directory hg
      exact .inl ⟨g.2, hgmem, by rw [← hgname]⟩
    · exact .inr (htemps e hm)
  have hin : file (f.name, f) ∈ list :=
    hperm.mem_iff.mpr (mem_append_left _ (mem_map_of_mem hf))
  have hmax : (list.filterMap key).max? = some f.id := by
    rw [max?_eq_some_iff]
    refine ⟨mem_filterMap.mpr ⟨_, hin, rfl⟩, fun id hid => ?_⟩
    obtain ⟨e, he, hk⟩ := mem_filterMap.mp hid
    rcases hmem e he with ⟨u, hu, rfl⟩ | hnone
    · cases hk
      exact (hbefore u hu).elim le_of_lt fun he => he ▸ le_rfl
    · simp [key, hnone] at hk
  have hfind : list.find? (fun e => e.name = .snapshot f.id) = some (file (f.name, f)) := by
    obtain ⟨e, he⟩ := isSome_iff_exists.mp (find?_isSome.mpr
      (show ∃ e ∈ list, decide (e.name = .snapshot f.id) = true from ⟨_, hin, by simp [file, Snap.name]⟩))
    have hname : e.name = .snapshot f.id := by simpa using find?_some he
    rcases hmem e (mem_of_find?_eq_some he) with ⟨u, hu, rfl⟩ | hnone
    · rcases hbefore u hu with hlt | rfl
      · have : u.id = f.id := by simpa [file, Snap.name] using hname
        omega
      · exact he
    · rw [hname] at hnone
      cases hnone
  rw [readCurrentSnapshot, foldl_pick, hmax]
  simp [hfind, file]

end Sqlite

/-! ## Both state machines -/

/-- **The current snapshot is the most advanced one**, in every listing order. The snapshots were
built or installed in the order of `snaps`, with a last log id that never decreases. Their names have
to be in that order, too. -/
theorem current_snapshot_is_highest (leader : LeaderId → List Char) :
    (∀ (snaps : List Cache.Snap) list, snaps ≠ [] → Cache.Lists leader snaps list →
      (snaps.Pairwise fun a b => Precedes a.last b.last) → (∀ u ∈ snaps, u.Dated) →
      snaps.Pairwise Cache.Snap.Orderly →
      ∃ name, ∃ c ∈ snaps, Cache.readCurrentSnapshot list = .ok (some (name, c)) ∧
        ∀ u ∈ snaps, Precedes u.last c.last) ∧
    (∀ (snaps : List Sqlite.Snap) list, snaps ≠ [] → Sqlite.Lists snaps list →
      (snaps.Pairwise fun a b => Precedes a.last b.last) → snaps.Pairwise Sqlite.Snap.Orderly →
      ∃ c ∈ snaps, Sqlite.readCurrentSnapshot list = .ok (some (c.id, ⟨c.last, some c.id⟩)) ∧
        ∀ u ∈ snaps, Precedes u.last c.last) := by
  constructor
  · intro snaps list hne hlist hlast hd hord
    obtain ⟨snaps, f, rfl⟩ := (eq_nil_or_concat' snaps).resolve_left hne
    obtain ⟨name, c, hc, hread, hcf⟩ := Cache.readCurrentSnapshot_eq hlist hd hlast hord
    refine ⟨name, c, hc, hread, fun u hu => hcf ▸ ?_⟩
    exact (rel_last hlast hu).elim (fun he => he ▸ Precedes.refl _) id
  · intro snaps list hne hlist hlast hord
    obtain ⟨snaps, f, rfl⟩ := (eq_nil_or_concat' snaps).resolve_left hne
    refine ⟨f, by simp, Sqlite.readCurrentSnapshot_eq hlist hord, fun u hu => ?_⟩
    exact (rel_last hlast hu).elim (fun he => he ▸ Precedes.refl _) id

def leaderText (l : LeaderId) : List Char :=
  'T' :: Nat.toDigits 10 l.term ++ '-' :: 'N' :: Nat.toDigits 10 l.nodeId

def idAt (i : ℕ) : Option LogId := some ⟨⟨1, 1⟩, i⟩

/-- A build before anything was applied, two in one second and an installed snapshot. -/
theorem current_snapshot_is_highest_four : (∃ name, ∃ c, Cache.readCurrentSnapshot
        ((directory (Cache.Snap.name leaderText)
          [⟨9, none⟩, ⟨10, idAt 5⟩, ⟨10, idAt 8⟩, ⟨12, idAt 8⟩]).map Cache.file).reverse =
          .ok (some (name, c)) ∧ Precedes (idAt 8) c.last) ∧
      ∃ c : Sqlite.Snap, Sqlite.readCurrentSnapshot
        ((directory Sqlite.Snap.name [⟨3, none⟩, ⟨5, idAt 5⟩, ⟨8, idAt 8⟩]).map Sqlite.file).reverse =
          .ok (some (c.id, ⟨c.last, some c.id⟩)) ∧ Precedes (idAt 8) c.last := by
  have hall := current_snapshot_is_highest leaderText
  constructor
  · obtain ⟨name, c, -, hread, hmax⟩ := hall.1 [⟨9, none⟩, ⟨10, idAt 5⟩, ⟨10, idAt 8⟩, ⟨12, idAt 8⟩] _
      (by simp) (Cache.lists_reverse _ _) (by decide) (by decide) (by decide)
    exact ⟨name, c, hread, hmax ⟨12, idAt 8⟩ (by simp)⟩
  · obtain ⟨c, -, hread, hmax⟩ := hall.2 [⟨3, none⟩, ⟨5, idAt 5⟩, ⟨8, idAt 8⟩] _
      (by simp) (Sqlite.lists_reverse _) (by decide) (by decide)
    exact ⟨c, hread, hmax ⟨8, idAt 8⟩ (by simp)⟩

/-- **A later snapshot that is not found**: the clock of the cache's builder is behind, the snapshot
of an empty cache was built in the same second, or the UUID is from a clock that is behind. -/
theorem skewed_clock_finds_older :
    Cache.readCurrentSnapshot ((directory (Cache.Snap.name leaderText)
        [⟨10, idAt 5⟩, ⟨9, idAt 8⟩]).map Cache.file) =
        .ok (some ((⟨10, idAt 5⟩ : Cache.Snap).name leaderText, ⟨10, idAt 5⟩)) ∧
      Cache.readCurrentSnapshot ((directory (Cache.Snap.name leaderText)
        [⟨10, none⟩, ⟨10, idAt 8⟩]).map Cache.file) =
        .ok (some ((⟨10, none⟩ : Cache.Snap).name leaderText, ⟨10, none⟩)) ∧
      Sqlite.readCurrentSnapshot ((directory Sqlite.Snap.name
        [⟨7, idAt 5⟩, ⟨6, idAt 8⟩]).map Sqlite.file) =
        .ok (some (7, ⟨idAt 5, some 7⟩)) := by
  decide +kernel

end Hiqlite.Snapshot
