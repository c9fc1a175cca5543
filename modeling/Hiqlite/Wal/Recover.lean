import Hiqlite.Wal.Check
import Hiqlite.Wal.Run

/-!
# W16 — what a start finds

A start reads the headers of the files that are left behind, checks that they fit together, and
after a kill checks the records of the last file.

* **`View.Ok.checkFiles`**: the headers of a view fit together, wherever it was left;
* **`recover_spec`**, **`recovered_log`**: the records that are recovered.
-/

namespace Hiqlite.Wal

open List Option Exec WalFile

variable [Crc]

/-! ## Reading the headers -/

def Slot.found (a : Slot) : Option WalFile :=
  a.hdr.map fun h => ⟨h, a.file.walNo, a.file.lenMax, none, none⟩

section

variable {v : View}

variable {a : Slot}

theorem View.Ok.hdr_isSome (hv : v.Ok) (ha : a ∈ v.slots) :
    a.hdr.isSome ∨ v.slots.getLast? = some a ∧ a.hdr = none ∧ a.bytes v.disk = Region.zero := by
  obtain ⟨ss, z, hz⟩ := (eq_nil_or_concat' v.slots).resolve_left (ne_nil_of_mem ha)
  have ha' := ha
  rw [hz] at ha'
  rcases mem_append.mp ha' with ha' | ha'
  · obtain ⟨-, -, h, hh, -⟩ := hv.sealed hz ha'
    exact .inl (by simp [hh])
  · obtain rfl := mem_singleton.mp ha'
    have hl := hv.last ss a hz
    cases hp : v.phase with
    | idle | due => rw [hp] at hl; exact .inl hl.2
    | writing e => rw [hp] at hl; exact .inl hl.1.2
    | created => rw [hp] at hl; exact .inr ⟨by simp [hz], hl.2.2.1, hl.2.2.2⟩

theorem View.Ok.readFromFile (hv : v.Ok) (ha : a ∈ v.slots) :
    (readFromFile a.file.walNo a.ino v.disk).toOption = a.found := by
  have hok := hv.slots a ha
  have hlen : ¬ (v.disk.inode a.ino).len < 32 := by
    have := hok.min_le
    rw [minWalSize] at this
    rw [hok.len]
    omega
  rw [WalFile.readFromFile, if_neg hlen, Slot.found]
  rcases hv.hdr_isSome ha with hh | ⟨-, hn, hz⟩
  · obtain ⟨h, hh⟩ := isSome_iff_exists.mp hh
    obtain ⟨hat, hshape⟩ := hok.hdr h hh
    have hparse : parseHeader ((v.disk.inode a.ino).bytes.read 0 32) = .ok h := by
      rw [show (v.disk.inode a.ino).bytes.read 0 32 = buildHeader h from hat,
        parseHeader_buildHeader hshape.fits]
    rw [hparse, hh, hok.len]
    rfl
  · rw [show (v.disk.inode a.ino).bytes = Region.zero from hz, hn]
    rfl

theorem View.Ok.readDir (hv : v.Ok) : WalFileSet.readDir v.disk = v.slots.filterMap Slot.found := by
  have hsort : (v.slots.map fun a => (a.file.walNo, a.ino)).Pairwise (·.1 ≤ ·.1) :=
    pairwise_map.mpr (hv.walNo_lt.imp fun hlt => hlt.le)
  rw [WalFileSet.readDir, hv.dir, hsort.insertionSort_eq, filterMap_map]
  exact filterMap_congr fun a ha => hv.readFromFile ha

theorem checkHeaders_chain {h : Header} {ts : List Slot} (hok : ∀ x ∈ a :: ts, x.Ok v.disk)
    (hc : (a :: ts).IsChain fun a b => a.Sealed v.disk ∧ a.Next b) (hh : a.hdr = some h) :
    WalFileSet.checkHeaders a.file.walNo h.idUntil (ts.filterMap Slot.found) = .ok () := by
  induction ts generalizing a h with
  | nil => rfl
  | cons b ts ih =>
    obtain ⟨⟨hseal, hnext⟩, hc'⟩ := isChain_cons_cons.mp hc
    have haok := hok a (by simp)
    have hbok := hok b (by simp)
    cases hb : b.hdr with
    | none =>
      -- only the last file has no header
      cases ts with
      | nil => simp [Slot.found, hb, WalFileSet.checkHeaders]
      | cons y ts =>
        obtain ⟨⟨⟨-, -, g, hg, -⟩, -⟩, -⟩ := isChain_cons_cons.mp hc'
        exact absurd (hb.symm.trans hg) (by simp)
    | some g =>
      have hrest := ih (fun x hx => hok x (by simp [hx])) hc' hb
      obtain ⟨hne, -, h', hh', -, hu, -⟩ := hseal
      obtain rfl : h = h' := some.inj (hh.symm.trans hh')
      have hno : addU64 a.file.walNo 1 = b.file.walNo := by
        have := haok.no_lt
        rw [hnext.no, addU64_of_lt (by omega)]
      have hid : addU64 h.idUntil 1 = a.file.idUntil + 1 := by
        obtain ⟨s, hs⟩ := (body_of_ne_nil hne).mp haok.body
        have := hs.idUntil_lt hne
        rw [u64Max] at this
        rw [hu, addU64_of_lt (by omega)]
      have hlen := hbok.lenMax_lt
      have hdata : ¬ g.dataEnd.getD 0 > b.file.lenMax ∧ g.dataStart.isSome = g.dataEnd.isSome ∧
          g.dataStart.any (· < offsetLogs) = false ∧ (g.dataStart.any fun s =>
            g.dataEnd.any fun e => s = e || addU32 s (8 + 4 + 4) > e) = false := by
        rcases (hbok.hdr g hb).2.data with ⟨hs, he⟩ | ⟨s, e, hs, he, h1, h2, h3⟩
        · simp [hs, he]
        · have hadd : addU32 s (8 + 4 + 4) = s + 16 := addU32_of_lt (by omega)
          simp only [hs, he, getD_some, isSome_some, any_some, hadd,
            decide_eq_false_iff_not, Bool.or_eq_false_iff, true_and]
          omega
      obtain ⟨h1, h2, h3, h4⟩ := hdata
      simp only [filterMap_cons, Slot.found, hb, map_some, WalFileSet.checkHeaders, hno,
        hid, ne_eq, not_true_eq_false, if_false, h1, h2, h3, h4, Bool.false_eq_true]
      split_ifs with hz hgap
      · rfl
      · exact hrest
      · rcases hnext.hdr g hb with hg | rfl
        · exact absurd hg.symm hgap
        · exact absurd ⟨rfl, rfl⟩ hz

theorem View.Ok.checkFiles (hv : v.Ok) :
    WalFileSet.checkFiles (v.slots.filterMap Slot.found) = .ok () := by
  have hok := hv.slots
  have hc := hv.chain
  cases hs : v.slots with
  | nil => rfl
  | cons a ts =>
    rw [hs] at hok hc
    cases hh : a.hdr with
    | none =>
      have hnil : ts = [] := by
        cases ts with
        | nil => rfl
        | cons b ts =>
          obtain ⟨⟨⟨-, -, g, hg, -⟩, -⟩, -⟩ := isChain_cons_cons.mp hc
          exact absurd (hh.symm.trans hg) (by simp)
      simp [hnil, Slot.found, hh, WalFileSet.checkFiles]
    | some h =>
      have hshape := (hok a (by simp) |>.hdr h hh).2
      have hend : ¬ h.dataEnd.getD 0 > a.file.lenMax := by
        rcases hshape.data with ⟨-, he⟩ | ⟨s, e, -, he, -, -, h3⟩
        · simp [he]
        · simpa [he] using h3
      simp only [filterMap_cons, Slot.found, hh, map_some, WalFileSet.checkFiles, hend,
        hshape.le.not_gt, if_false]
      exact checkHeaders_chain hok hc hh

end

/-! ## Reading and checking the files -/

namespace WalFileSet

/-- `WalFileSet::read` and `check_integrity` with the deep check. -/
def recover (c : Cfg) : Exec WalDev Stop WalFileSet := do
  let set ← read c.walSize
  set.exec (checkIntegrity c.autoHeal true)

variable {fs : List WalFile} {f : WalFile} {d : WalDev} {ino : ℕ}

omit [Crc] in
theorem wp_read {n : ℕ} {Q : WalFileSet → WalDev → Prop} {E : Stop → WalDev → Prop}
    (hd : readDir d.disk = fs ++ [f]) :
    wp (read n) Q E d ↔ Q ⟨some fs.length, fs ++ [f]⟩ d := by
  rw [read, wp_bind, wp_get, hd]
  split
  · next hnil => simp at hnil
  · rw [wp_pure]
    simp

theorem wp_checkIntegrity_true {heal : Bool} {Q : Unit → WalFileSet × WalDev → Prop}
    {E : Stop → WalFileSet × WalDev → Prop} (hc : checkFiles (fs ++ [f]) = .ok ())
    (hm : f.mmapMut = none) (hlook : d.disk.lookup f.walNo = some ino) (hrel : d.Reliable) :
    wp (checkIntegrity heal true) Q E (⟨some fs.length, fs ++ [f]⟩, d) ↔
      wp (checkRepairDataIntegrity heal)
        (fun _ s => Q () (⟨some fs.length, fs ++ [s.1]⟩, s.2))
        (fun e s => E e (⟨some fs.length, fs ++ [s.1]⟩, s.2))
        ({ f with mmapMut := some ino }, d.tick) := by
  have hfault : d.fault d.calls = false := by rw [Dev.Reliable] at hrel; rw [hrel]
  have hne : (fs ++ [f]).isEmpty = false := by simp
  rw [checkIntegrity, wp_bind, wp_get]
  simp only [hne, hc, Except.mapError, lift_ok, pure_bind, Bool.false_eq_true, if_false,
    if_true]
  rw [wp_bind, wp_onActive rfl rfl, wp_openMmapMut hlook, hm, hfault]
  simp only [isSome_none, Bool.false_eq_true, if_false]
  rw [wp_onActive rfl rfl]

end WalFileSet

/-- The file as it is read with the header `h` and mapped. -/
def Slot.opened (a : Slot) (h : Header) : WalFile :=
  ⟨h, a.file.walNo, a.file.lenMax, none, some a.ino⟩

def Slot.checked (d : WalDisk) (a : Slot) (h : Header) : WalFile :=
  (a.opened h).adopt h.scanFrom (strays (a.bytes d) a.file.lenMax h)

section

variable {c : Cfg} {v : View} {d : WalDev} {ss ts : List Slot} {z : Slot} {h : Header}
  {recs : List Entry}

omit [Crc] in
theorem View.Ok.filterMap_found (hts : ∀ b ∈ ts, b.hdr = none) (hz : z.hdr = some h) :
    (ss ++ z :: ts).filterMap Slot.found = ss.filterMap Slot.found ++
      [⟨h, z.file.walNo, z.file.lenMax, none, none⟩] := by
  have hnil : ts.filterMap Slot.found = [] :=
    filterMap_eq_nil_iff.mpr fun b hb => by rw [Slot.found, hts b hb]; rfl
  rw [filterMap_append, filterMap_cons, hnil]
  simp [Slot.found, hz]

/-- **Recovery** of files, the last of which has a header that describes records `recs`. -/
theorem recover_spec (hv : v.Ok) (hslots : v.slots = ss ++ z :: ts) (hts : ∀ b ∈ ts, b.hdr = none)
    (hz : z.hdr = some h) (hb : Body (z.bytes v.disk) z.file.lenMax h recs) (hd : d.disk = v.disk)
    (hrel : d.Reliable) : ∃ set d', WalFileSet.recover c d = (.ok set, d') ∧ Rehead z.ino d d' ∧
      set.files = ss.filterMap Slot.found ++ [z.checked v.disk h] := by
  have hzv : z ∈ v.slots := by simp [hslots]
  have hok := hv.slots z hzv
  have hread := hv.readDir
  have hcheck := hv.checkFiles
  rw [hslots, View.Ok.filterMap_found hts hz] at hread hcheck
  rw [← hd] at hread
  have hspec : wp (WalFileSet.recover c) (fun set d' => Rehead z.ino d d' ∧
      set.files = ss.filterMap Slot.found ++ [z.checked v.disk h]) (fun _ _ => False) d := by
    rw [WalFileSet.recover, wp_bind, WalFileSet.wp_read hread, WalFileSet.wp_exec,
      WalFileSet.wp_checkIntegrity_true hcheck rfl (by rw [hd]; exact hv.lookup hzv) hrel]
    have hbytes : (d.tick.disk.inode z.ino).bytes = z.bytes v.disk := by
      rw [Dev.tick_disk, hd, Slot.bytes]
    rw [Slot.checked]
    rw [← hbytes] at hb ⊢
    refine wp_imp (checkRepair_body (f := z.opened h)
      (.of_mut rfl rfl (by rw [Dev.tick_disk, hd]; exact hok.len)) hok.lt_max hb) ?_
    rintro - ⟨g, d'⟩ ⟨hg, hre, -⟩
    rw [show g = _ from hg]
    exact ⟨(Rehead.tick _ _).trans hre, rfl⟩
  rcases hr : WalFileSet.recover c d with ⟨res, d'⟩
  cases res with
  | ok set => exact ⟨set, d', rfl, (wp_of_ok hr).mp hspec⟩
  | error e => exact ((wp_of_error hr).mp hspec).elim

theorem View.Ok.sealed_of_append (hv : v.Ok) (hslots : v.slots = ss ++ z :: ts) {x : Slot}
    (hx : x ∈ ss) : x.Sealed v.disk := by
  obtain ⟨ys, y, hy⟩ := (eq_nil_or_concat' (z :: ts)).resolve_left (by simp)
  rw [hy, ← append_assoc] at hslots
  exact hv.sealed hslots (by simp [hx])

theorem Slot.Sealed.stored_found {x : Slot} {f : WalFile} {dk : WalDisk} (hx : x.Sealed v.disk)
    (hok : x.Ok v.disk) (hf : x.found = some f) (hlook : dk.lookup x.file.walNo = some x.ino)
    (hino : dk.inode x.ino = v.disk.inode x.ino) : f.stored dk = x.pre ++ x.recs := by
  obtain ⟨-, -, h, hh, hb, -⟩ := hx
  rw [Slot.found, hh] at hf
  cases hf
  exact Body.stored hlook hok.lt_max (by rw [hino]; exact hb)

theorem recovered_log (hv : v.Ok) (hslots : v.slots = ss ++ z :: ts)
    (hb : Body (z.bytes v.disk) z.file.lenMax h recs) (hd : d.disk = v.disk) {set : WalFileSet}
    {d' : WalDev} (hre : Rehead z.ino d d')
    (hfiles : set.files = ss.filterMap Slot.found ++ [z.checked v.disk h]) :
    set.stored d'.disk = ss.flatMap (fun x => x.pre ++ x.recs) ++
      (recs ++ strays (z.bytes v.disk) z.file.lenMax h) := by
  have hlook : ∀ x ∈ v.slots, d'.disk.lookup x.file.walNo = some x.ino := fun x hx => by
    rw [Disk.lookup, hre.dir, hd]
    exact hv.lookup hx
  have hzv : z ∈ v.slots := by simp [hslots]
  have hbytes := hre.bytes (z.file.lenMax + 1)
  rw [hd] at hbytes
  have hlast := stored_adopt (f := z.opened h) (hlook z hzv)
    (hv.slots z hzv).lt_max hb hbytes
  rw [WalFileSet.stored, hfiles, flatMap_append, flatMap_singleton]
  refine congrArg₂ _ ?_ hlast
  have hss : ∀ x ∈ ss, ∃ f, x.found = some f ∧ f.stored d'.disk = x.pre ++ x.recs := by
    intro x hx
    have hxv : x ∈ v.slots := by simp [hslots, hx]
    have hseal := hv.sealed_of_append hslots hx
    obtain ⟨-, -, g, hg, -⟩ := id hseal
    refine ⟨_, by rw [Slot.found, hg]; rfl, ?_⟩
    refine hseal.stored_found (hv.slots x hxv) (by rw [Slot.found, hg]; rfl) (hlook x hxv) ?_
    rw [hre.other _ ((hv.ino_ne hslots).1 x hx), hd]
  clear hlast hfiles hslots
  induction ss with
  | nil => rfl
  | cons x ss ih =>
    obtain ⟨f, hf, hst⟩ := hss x (by simp)
    rw [filterMap_cons, hf, flatMap_cons, flatMap_cons, hst,
      ih fun y hy => hss y (by simp [hy])]

end

end Hiqlite.Wal
