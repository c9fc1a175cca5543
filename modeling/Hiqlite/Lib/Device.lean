import Hiqlite.Lib.Region
import Hiqlite.Lib.Exec

/-!
# L3 — a storage device

A disk holds inodes, one directory of numbered files, and some small state `μ` that is replaced as
a whole. Every change is an `Event`, and a device keeps the list of all events of one process
lifetime. What a process kill leaves behind is the disk after a prefix of that list.
-/

namespace Hiqlite

open List Function

/-- A file's content. It outlives the file's name while a mapping exists. -/
structure Inode where
  len : ℕ
  bytes : Region

/-- A disk: inodes, the directory from file numbers to inodes, and the small state. -/
structure Disk (μ : Type) where
  inode : ℕ → Inode
  next : ℕ
  dir : List (ℕ × ℕ)
  small : μ

def Disk.lookup {μ : Type} (d : Disk μ) (no : ℕ) : Option ℕ := d.dir.lookup no

theorem Disk.lookup_of_mem {μ : Type} {d : Disk μ} {no ino : ℕ} (hn : (d.dir.map Prod.fst).Nodup)
    (hx : (no, ino) ∈ d.dir) : d.lookup no = some ino := by
  unfold Disk.lookup
  generalize d.dir = l at *
  induction l with
  | nil => cases hx
  | cons y l ih =>
    rw [map_cons, nodup_cons] at hn
    rcases mem_cons.mp hx with rfl | hx
    · simp
    · have hne : (no == y.1) = false := by
        simp only [beq_eq_false_iff_ne, ne_eq]
        rintro rfl
        exact hn.1 (mem_map.mpr ⟨_, hx, rfl⟩)
      rw [lookup_cons, hne]
      exact ih hn.2 hx

def Disk.empty {μ : Type} (m : μ) : Disk μ := ⟨fun _ => ⟨0, Region.zero⟩, 0, [], m⟩

/-- What a process does to a disk. A write carries its purpose `κ`; a note is an observation `ν`
that changes nothing. -/
inductive Event (κ μ ν : Type) where
  | create (no len : ℕ)
  | write (ino : ℕ) (kind : κ) (off : ℕ) (bs : Bytes)
  | flush (ino : ℕ)
  | remove (no : ℕ)
  | small (m : μ)
  | note (n : ν)

variable {κ μ ν ε : Type}

/-- The effect of an event. A created file is a fresh inode of null bytes. -/
def Event.apply : Event κ μ ν → Disk μ → Disk μ
  | .create no len, d =>
    { d with
      inode := update d.inode d.next ⟨len, Region.zero⟩
      next := d.next + 1
      dir := d.dir ++ [(no, d.next)] }
  | .write ino _ off bs, d =>
    { d with
      inode := update d.inode ino
        ⟨(d.inode ino).len, (d.inode ino).bytes.write off bs⟩ }
  | .flush _, d => d
  | .remove no, d => { d with dir := d.dir.filter (·.1 ≠ no) }
  | .small m, d => { d with small := m }
  | .note _, d => d

def replay (d : Disk μ) (es : List (Event κ μ ν)) : Disk μ := es.foldl (fun d e => e.apply d) d

theorem replay_append (d : Disk μ) (es fs : List (Event κ μ ν)) :
    replay d (es ++ fs) = replay (replay d es) fs := by
  simp [replay, foldl_append]

theorem replay_concat (d : Disk μ) (es : List (Event κ μ ν)) (e : Event κ μ ν) :
    replay d (es ++ [e]) = e.apply (replay d es) := by
  simp [replay, foldl_append]

section Apply

variable (d : Disk μ) (ino no len off i : ℕ) (k : κ) (bs : Bytes)

@[simp] theorem apply_write_bytes_self :
    (((Event.write ino k off bs : Event κ μ ν).apply d).inode ino).bytes =
      (d.inode ino).bytes.write off bs := by
  simp [Event.apply]

@[simp] theorem apply_write_len :
    (((Event.write ino k off bs : Event κ μ ν).apply d).inode i).len = (d.inode i).len := by
  by_cases h : i = ino
  · subst h; simp [Event.apply]
  · simp [Event.apply, update_of_ne h]

theorem apply_write_inode_of_ne (h : i ≠ ino) :
    ((Event.write ino k off bs : Event κ μ ν).apply d).inode i = d.inode i := by
  simp [Event.apply, update_of_ne h]

@[simp] theorem apply_remove_inode :
    ((Event.remove no : Event κ μ ν).apply d).inode = d.inode := rfl

@[simp] theorem apply_remove_next : ((Event.remove no : Event κ μ ν).apply d).next = d.next := rfl

@[simp] theorem apply_remove_dir :
    ((Event.remove no : Event κ μ ν).apply d).dir = d.dir.filter (·.1 ≠ no) := rfl

@[simp] theorem apply_create_dir :
    ((Event.create no len : Event κ μ ν).apply d).dir = d.dir ++ [(no, d.next)] := rfl

@[simp] theorem apply_create_next :
    ((Event.create no len : Event κ μ ν).apply d).next = d.next + 1 := rfl

@[simp] theorem apply_create_inode_next :
    ((Event.create no len : Event κ μ ν).apply d).inode d.next = ⟨len, Region.zero⟩ := by
  simp [Event.apply]

theorem apply_create_inode_of_ne (h : i ≠ d.next) :
    ((Event.create no len : Event κ μ ν).apply d).inode i = d.inode i := by
  simp [Event.apply, update_of_ne h]

end Apply

/-! ## Devices -/

/-- A device: the disk at the start of the process, all events since, and the disk they make.
The `n`-th system call fails if `fault n`. -/
structure Dev (κ μ ν : Type) where
  base : Disk μ
  trace : List (Event κ μ ν)
  disk : Disk μ
  disk_eq : disk = replay base trace
  fault : ℕ → Bool
  calls : ℕ

namespace Dev

def ofDisk (d : Disk μ) : Dev κ μ ν := ⟨d, [], d, rfl, fun _ => false, 0⟩

def emit (e : Event κ μ ν) (d : Dev κ μ ν) : Dev κ μ ν :=
  { d with
    trace := d.trace ++ [e]
    disk := e.apply d.disk
    disk_eq := by rw [replay_concat, ← d.disk_eq] }

def tick (d : Dev κ μ ν) : Dev κ μ ν := { d with calls := d.calls + 1 }

/-- The disk a process kill leaves behind after `n` events. -/
def killed (d : Dev κ μ ν) (n : ℕ) : Disk μ := replay d.base (d.trace.take n)

def Reliable (d : Dev κ μ ν) : Prop := d.fault = fun _ => false

def sys (failure : ε) (e : Event κ μ ν) : Exec (Dev κ μ ν) ε Unit := fun d =>
  if d.fault d.calls then (.error failure, d.tick) else (.ok (), d.tick.emit e)

def ask (failure : ε) : Exec (Dev κ μ ν) ε Unit := fun d =>
  if d.fault d.calls then (.error failure, d.tick) else (.ok (), d.tick)

variable (e : Event κ μ ν) (d : Dev κ μ ν)

@[simp] theorem emit_disk : (d.emit e).disk = e.apply d.disk := rfl
@[simp] theorem emit_trace : (d.emit e).trace = d.trace ++ [e] := rfl
@[simp] theorem emit_base : (d.emit e).base = d.base := rfl
@[simp] theorem emit_fault : (d.emit e).fault = d.fault := rfl
@[simp] theorem emit_calls : (d.emit e).calls = d.calls := rfl
@[simp] theorem tick_calls : d.tick.calls = d.calls + 1 := rfl
@[simp] theorem tick_disk : d.tick.disk = d.disk := rfl
@[simp] theorem tick_trace : d.tick.trace = d.trace := rfl
@[simp] theorem tick_base : d.tick.base = d.base := rfl
@[simp] theorem tick_fault : d.tick.fault = d.fault := rfl
@[simp] theorem ofDisk_disk (b : Disk μ) : (ofDisk b : Dev κ μ ν).disk = b := rfl
theorem reliable_ofDisk (b : Disk μ) : (ofDisk b : Dev κ μ ν).Reliable := rfl

variable {d}

@[simp] theorem wp_sys {failure : ε} {Q : Unit → Dev κ μ ν → Prop} {E : ε → Dev κ μ ν → Prop} :
    Exec.wp (sys failure e) Q E d ↔
      if d.fault d.calls then E failure d.tick else Q () (d.tick.emit e) := by
  by_cases h : d.fault d.calls
  · rw [Exec.wp_of_error (show sys failure e d = (.error failure, d.tick) by simp [sys, h]),
      if_pos h]
  · rw [Exec.wp_of_ok (show sys failure e d = (.ok (), d.tick.emit e) by simp [sys, h]), if_neg h]

@[simp] theorem wp_ask {failure : ε} {Q : Unit → Dev κ μ ν → Prop} {E : ε → Dev κ μ ν → Prop} :
    Exec.wp (ask failure) Q E d ↔ if d.fault d.calls then E failure d.tick else Q () d.tick := by
  by_cases h : d.fault d.calls
  · rw [Exec.wp_of_error (show ask failure d = (.error failure, d.tick) by simp [ask, h]), if_pos h]
  · rw [Exec.wp_of_ok (show ask failure d = (.ok (), d.tick) by simp [ask, h]), if_neg h]

end Dev

end Hiqlite
