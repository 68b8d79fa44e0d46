import LkHv.Ptable.Disjoint
import Mathlib.Data.List.Nodup

/-!
# The partition table on flash

The bytes of the flash, the commit of a table on them, and a scan of what is there.

* `PtableFlash`, `flashCall`, `flashSys`   the bookkeeping with the flash, the calls and their machine;
* `FlashHolds`, `ReadsAs`           bytes and entries that a flash has at an offset;
* `scan_image`                 a scan of a table that was committed finds its entries;
* `ptable_round_trip`          after a call that succeeds a scan finds the table, one that fails changes nothing;
* `not_ptable_round_trip`      a table that is longer than a block is committed and not found again.
-/

namespace LkHv
open Bio

/-- the bookkeeping, and the bytes of the flash -/
structure PtableFlash where
  pt : Ptable
  flash : Nat → UInt8

/-- `bio_read` of a flash of `total` bytes -/
def flashRead (total : Nat) (flash : Nat → UInt8) : FlashRead := fun off len =>
  if off ≥ total then .ok [] else .ok ((List.range (min len (total - off))).map fun i => flash (off + i))

def PtableOp.writeEnd : PtableOp → WriteEnd
  | .createDefault _ _ _ w => w
  | .add _ _ _ _ w => w
  | .remove _ w => w
  | .scan _ _ _ _ => ⟨true, true⟩

/-- a call on the table of a device, up to the commit of the table -/
def PtableOp.prepare (device : List UInt8) (s : Ptable) : PtableOp → Option (Ptable × Option Int)
  | .createDefault bdevName offset mem _ => if bdevName = device then prepareCreate s bdevName offset mem else none
  | .add name minLen allocEnd mem _ => prepareAdd s (name.takeWhile (· ≠ 0)) minLen allocEnd mem
  | .remove name _ => prepareRemove s (name.takeWhile (· ≠ 0))
  | .scan _ _ _ _ => none

section
variable (crc32 : Nat → List UInt8 → Nat)

/-- the buffer that `ptable_write` fills -/
def ptableImage (s : Ptable) : List UInt8 :=
  let totalLength := ptableLength s.list.length
  let crc := s.list.foldl (fun c e => crc32 c e.encode % 2 ^ 32) (crc32 0 (ptableHeader 0 s.gen totalLength) % 2 ^ 32)
  ptableHeader crc s.gen totalLength ++ s.list.flatMap PtableEntry.encode

/-- the flash after `ptable_write`; `fill` are the bytes that an erase, or an erase or a write that fails, leaves in
the partition of the table -/
def commitFlash (s : Ptable) (w : WriteEnd) (fill flash : Nat → UInt8) : Nat → UInt8 :=
  match s.parts.find? (·.name = PTABLE_PART_NAME) with
  | none => flash
  | some bdev =>
    let start := bdev.range.1
    let size := bdev.dev.dev.totalSize
    let image := ptableImage crc32 s
    if s.others.any (·.name = PTABLE_PART_NAME) ∨ ptableLength s.list.length > size ∨ ¬ w.mem then flash
    else fun a =>
      if a < start ∨ a ≥ start + size then flash a
      else if w.io ∧ a < start + image.length then image.getD (a - start) 0
      else if w.io ∧ bdev.dev.dev.geometry = [] then flash a
      else fill a

/-- a call on the table of a device and what it returns -/
def flashCall (device : List UInt8) (σ : PtableFlash) (op : PtableOp) (fill : Nat → UInt8) : Option (PtableFlash × Int) :=
  match op.prepare device σ.pt, ptableCall crc32 σ.pt op with
  | some (t, none), some (s, err) => some (⟨s, commitFlash crc32 t op.writeEnd fill σ.flash⟩, err)
  | some (_, some _), some (s, err) => some (⟨s, σ.flash⟩, err)
  | _, _ => none

/-- nothing is mounted at first; the flash is one of the devices -/
def flashSys (p : BioDev) : Machine PtableFlash (PtableOp × (Nat → UInt8)) :=
  .ofFun (fun σ => σ.pt.bdev = none ∧ σ.pt.list = [] ∧ σ.pt.parts = [] ∧ σ.pt.others.find? (·.name = p.name) = some p)
    fun σ op => (flashCall crc32 p.name σ op.1 op.2).map (·.1)

/-- a scan of the flash with nothing mounted -/
def freshScan (p : BioDev) (σ : PtableFlash) (offset : Nat) : Ptable × Int :=
  ptableScan crc32 ⟨none, 0, [], σ.pt.others, []⟩ p.name offset (flashRead p.dev.dev.totalSize σ.flash) []

end

/-- The names are new ones.  A call that comes to the commit ends it, with a table of at most one block; a default
table is created where none is mounted, or comes to the commit. -/
def PtableOp.Commits (p : BioDev) (σ : PtableFlash) (op : PtableOp) : Prop :=
  (∀ t, op.prepare p.name σ.pt = some (t, none) →
    op.writeEnd.mem = true ∧ op.writeEnd.io = true ∧ ptableLength t.list.length ≤ p.dev.dev.blockSize) ∧
  match op with
  | .createDefault _ _ _ _ => (∀ d ∈ σ.pt.others, d.name ≠ PTABLE_PART_NAME) ∧
      (σ.pt.bdev = none ∨ ∃ t, op.prepare p.name σ.pt = some (t, none))
  | .add name _ _ _ _ => ∀ d ∈ σ.pt.others, d.name ≠ name.takeWhile (· ≠ 0)
  | _ => True

/-! ## bytes -/

/-- the flash has these bytes at an offset -/
def FlashHolds (flash : Nat → UInt8) (off : Nat) (bytes : List UInt8) : Prop :=
  ∀ i < bytes.length, flash (off + i) = bytes.getD i 0

section
variable {flash : Nat → UInt8} {off : Nat} {s : Ptable} {p : BioDev} {crc32 : Nat → List UInt8 → Nat}

theorem FlashHolds.left {a b : List UInt8} (h : FlashHolds flash off (a ++ b)) : FlashHolds flash off a := by
  intro i hi
  rw [h i (by rw [List.length_append]; omega), List.getD_append _ _ _ _ hi]

theorem FlashHolds.right {a b : List UInt8} (h : FlashHolds flash off (a ++ b)) : FlashHolds flash (off + a.length) b := by
  intro i hi
  rw [Nat.add_assoc, h (a.length + i) (by rw [List.length_append]; omega),
    List.getD_append_right _ _ _ _ (Nat.le_add_right _ _), Nat.add_sub_cancel_left]

theorem FlashHolds.read {bytes : List UInt8} (total : Nat) (h : FlashHolds flash off bytes) (hpos : 0 < bytes.length)
    (hin : off + bytes.length ≤ total) : flashRead total flash off bytes.length = .ok bytes := by
  unfold flashRead
  rw [if_neg (by omega), Nat.min_eq_left (by omega)]
  congr 1
  apply List.ext_getElem
  · rw [List.length_map, List.length_range]
  · intro i h1 h2
    rw [List.getElem_map, List.getElem_range, h i h2, List.getD_eq_getElem _ _ h2]

/-- reads from `off` on find these entries -/
def ReadsAs (read : FlashRead) : Nat → List PtableEntry → Prop
  | _, [] => True
  | off, e :: l => read off ptableEntrySize = .ok e.encode ∧ ReadsAs read (off + ptableEntrySize) l

namespace PtableEntry

/-- the fields have their sizes -/
def Sized (e : PtableEntry) : Prop :=
  e.offset < 2 ^ 64 ∧ e.length < 2 ^ 64 ∧ e.flags < 2 ^ 32 ∧ e.name.length = MAX_FLASH_PTABLE_NAME_LEN

theorem encode_length {e : PtableEntry} (h : e.Sized) : e.encode.length = ptableEntrySize := by
  unfold encode
  rw [List.length_append, List.length_append, List.length_append, h.2.2.2]
  rfl

theorem decode_encode {e : PtableEntry} (h : e.Sized) : decode e.encode = e := by
  obtain ⟨h1, h2, h3, h4⟩ := h
  have e1 : u64 e.encode 0 = e.offset := u64_bytes64 h1 [] _
  have e2 : u64 e.encode 8 = e.length := u64_bytes64 h2 (bytes64 e.offset) _
  have e3 : u32 e.encode 16 = e.flags := by
    have h := u32_bytes32 h3 (bytes64 e.offset ++ bytes64 e.length) e.name
    rw [List.append_assoc] at h
    exact h
  have e4 : (e.encode.drop 20).take MAX_FLASH_PTABLE_NAME_LEN = e.name := by
    show e.name.take MAX_FLASH_PTABLE_NAME_LEN = e.name
    exact List.take_of_length_le (Nat.le_of_eq h4)
  rw [decode, e1, e2, e3, e4]

end PtableEntry

theorem FlashHolds.reads (total : Nat) : ∀ {list : List PtableEntry} {off : Nat}, FlashHolds flash off (list.flatMap PtableEntry.encode) →
    (∀ e ∈ list, e.Sized) → off + ptableEntrySize * list.length ≤ total → ReadsAs (flashRead total flash) off list := by
  intro list
  induction list with
  | nil =>
    intro _ _ _ _
    trivial
  | cons e list ih =>
    intro off h hs hin
    rw [List.flatMap_cons] at h
    have hlen := PtableEntry.encode_length (hs e (.head _))
    rw [List.length_cons, Nat.mul_succ] at hin
    have hread := h.left.read total (by rw [hlen]; decide) (by rw [hlen]; lia)
    have hright := h.right
    rw [hlen] at hread hright
    exact ⟨hread, ih hright (fun a ha => hs a (.tail _ ha)) (by lia)⟩

/-! ## a scan -/

/-- the fields of a header, which has 16 bytes -/
theorem ptableHeader_fields {crc len : Nat} (gen : Nat) (hc : crc < 2 ^ 32) (hl : len < 2 ^ 32) :
    u32 (ptableHeader crc gen len) 0 = PTABLE_MAGIC ∧ u32 (ptableHeader crc gen len) 4 = crc ∧
      u32 (ptableHeader crc gen len) 8 = gen % 2 ^ 32 ∧ u32 (ptableHeader crc gen len) 12 = len := by
  have hm : PTABLE_MAGIC < 2 ^ 32 := by decide
  refine ⟨?_, u32_bytes32 hc (bytes32 PTABLE_MAGIC) _, ?_, ?_⟩
  · have h := u32_bytes32 hm [] (bytes32 crc ++ (bytes32 gen ++ (bytes32 len ++ [])))
    rw [List.nil_append] at h
    exact h
  · have h := u32_bytes32 (show gen % 2 ^ 32 < 2 ^ 32 by omega) (bytes32 PTABLE_MAGIC ++ bytes32 crc) (bytes32 len ++ [])
    rw [List.append_assoc, bytes32_mod] at h
    exact h
  · have h := u32_bytes32 hl (bytes32 PTABLE_MAGIC ++ (bytes32 crc ++ bytes32 gen)) []
    rw [List.append_assoc, List.append_assoc] at h
    exact h

theorem ptableHeader_mod (crc gen len : Nat) : ptableHeader crc (gen % 2 ^ 32) len = ptableHeader crc gen len := by
  unfold ptableHeader
  rw [bytes32_mod]

/-- an entry that is in order is published -/
theorem ptablePublish_ok {e : PtableEntry} (R : Registered s p) (hE : EntryOk p.dev e) (hn : ∀ a ∈ s.list, a.cname ≠ e.cname) :
    ptablePublish s p e ⟨true, true⟩ = (s.push p.dev e, 0) := by
  have hfind : ¬ ptableFind s e.cname = true := by
    intro h
    obtain ⟨a, ha, he⟩ := List.any_eq_true.mp h
    exact hn a ha (of_decide_eq_true he)
  have hstop : add64 e.offset e.length = e.stop := add64_of_inside hE.inside
  have hpos := hE.pos
  have hin := hE.inside
  have hlt : e.offset < e.stop := by
    unfold PtableEntry.stop
    lia
  have hmask : ¬ (e.offset &&& (2 ^ p.dev.dev.blockShift - 1) ≠ 0 ∨ e.length &&& (2 ^ p.dev.dev.blockShift - 1) ≠ 0) := by
    rw [and_mask_ne, and_mask_ne]
    rintro (h | h)
    · exact h hE.aligned.1
    · exact h hE.aligned.2
  unfold ptablePublish
  dsimp only
  rw [if_neg (not_not.mpr hE.valid), if_neg hfind, if_neg hmask, hstop, if_neg (by lia), if_neg (by lia),
    if_neg (by decide), R.open_parent]
  dsimp only
  rw [hE.published]
  rfl

/-- an entry behind the others goes to the end -/
theorem push_last {e : PtableEntry} : ∀ {l : List PtableEntry}, (∀ a ∈ l, a.offset ≤ e.offset) → ptablePushEntry e l = l ++ [e] := by
  intro l
  induction l with
  | nil =>
    intro _
    rfl
  | cons a l ih =>
    intro h
    have := h a (.head _)
    rw [ptablePushEntry, if_neg (by omega), ih fun b hb => h b (.tail _ hb)]
    rfl

/-- the table with these entries and nothing else -/
def tableState (p : BioDev) (others : List BioDev) (list : List PtableEntry) : Ptable :=
  ⟨some p, 0, list, others, list.map (·.part p.dev)⟩

/-- **The entries**: a scan of a table in order publishes them. -/
theorem scanEntries_image (crc32 : Nat → List UInt8 → Nat) {offset : Nat} {read : FlashRead} {others : List BioDev} :
    ∀ {rest : List PtableEntry} (done : List PtableEntry) {off : Nat} (crc : Nat) (found : Bool),
    others.find? (·.name = p.name) = some p → ReadsAs read off rest → (done ++ rest).Pairwise (fun a b => a.stop ≤ b.offset) →
    (done ++ rest).Pairwise (fun a b => a.cname ≠ b.cname) → (∀ e ∈ done ++ rest, EntryOk p.dev e) →
    (∀ e ∈ done ++ rest, ∀ d ∈ others, d.name ≠ e.cname) → (∀ e ∈ rest, e.Sized) →
    (∀ e ∈ rest, e.cname = PTABLE_PART_NAME → e.offset = offset) →
    scanEntries crc32 p offset read rest.length [] (tableState p others done) off crc found =
      (tableState p others (done ++ rest), .ok (rest.foldl (fun c e => crc32 c e.encode % 2 ^ 32) crc,
        found || rest.any (·.cname = PTABLE_PART_NAME))) := by
  intro rest
  induction rest with
  | nil =>
    intro done off crc found _ _ _ _ _ _ _ _
    rw [List.append_nil, List.any_nil, Bool.or_false]
    rfl
  | cons e rest ih =>
    intro done off crc found hfound hreads hap hnames hok hforeign hsized hoffset
    obtain ⟨hread, hreads⟩ := hreads
    have hmem : ∀ a ∈ done, a ∈ done ++ e :: rest := fun a ha => List.mem_append_left _ ha
    have hme : e ∈ done ++ e :: rest := List.mem_append_right _ (.head _)
    have hnd := (List.pairwise_append.mp hnames)
    have hsd := (List.pairwise_append.mp hap)
    have R : Registered (tableState p others done) p :=
      ⟨rfl, hfound, hnd.1, fun a ha => hforeign a (hmem a ha), fun a ha => hok a (hmem a ha), .refl _⟩
    have hpub := ptablePublish_ok R (hok e hme) fun a ha => hnd.2.2 a ha e (.head _)
    have hpush : (tableState p others done).push p.dev e = tableState p others (done ++ [e]) := by
      unfold Ptable.push tableState
      dsimp only
      rw [List.map_append, push_last]
      · rfl
      · intro a ha
        have h1 := hsd.2.2 a ha e (.head _)
        have h2 : a.offset ≤ a.stop := Nat.le_add_right _ _
        omega
    have hassoc : done ++ e :: rest = (done ++ [e]) ++ rest := by
      rw [List.append_assoc]
      rfl
    rw [hassoc] at hap hnames hok hforeign
    rw [List.length_cons, scanEntries, hread]
    dsimp only
    rw [PtableEntry.decode_encode (hsized e (.head _)), List.headD_nil, hpub, hpush]
    dsimp only
    have hplace : ¬ (e.cname = PTABLE_PART_NAME ∧ e.offset ≠ offset) := fun h => h.2 (hoffset e (.head _) h.1)
    rw [if_neg (by decide), if_neg hplace, List.tail_nil]
    rw [ih _ _ _ hfound hreads hap hnames hok hforeign (fun a ha => hsized a (.tail _ ha)) fun a ha => hoffset a (.tail _ ha)]
    rw [hassoc, List.any_cons, List.foldl_cons, Bool.or_assoc]

theorem Registered.unique (R : Registered s p) {a b : PtableEntry} (ha : a ∈ s.list) (hb : b ∈ s.list)
    (h : a.cname = b.cname) : a = b :=
  List.inj_on_of_nodup_map (List.pairwise_map.mpr R.names) ha hb h

/-- a table as a commit leaves it -/
structure Committed (s : Ptable) (p : BioDev) (e : PtableEntry) : Prop where
  mounted : Mounted s p
  self : e ∈ s.list
  name : e.cname = PTABLE_PART_NAME
  sized : ∀ a ∈ s.list, a.Sized
  short : ptableLength s.list.length ≤ p.dev.dev.blockSize

theorem Committed.room {e : PtableEntry} (C : Committed s p e) : ptableLength s.list.length ≤ e.length := by
  have hE := C.mounted.registered.entries e C.self
  have h := Nat.le_of_dvd hE.pos hE.aligned.2
  rw [← p.dev.dev.blockSize_eq] at h
  exact C.short.trans h

theorem ptableImage_length (crc32 : Nat → List UInt8 → Nat) (h : ∀ a ∈ s.list, a.Sized) : (ptableImage crc32 s).length = ptableLength s.list.length := by
  have hflat : ∀ l : List PtableEntry, (∀ a ∈ l, a.Sized) →
      (l.flatMap PtableEntry.encode).length = ptableEntrySize * l.length := by
    intro l
    induction l with
    | nil =>
      intro _
      rfl
    | cons a l ih =>
      intro h
      rw [List.flatMap_cons, List.length_append, PtableEntry.encode_length (h a (.head _)),
        ih fun b hb => h b (.tail _ hb), List.length_cons, Nat.mul_succ, Nat.add_comm]
  unfold ptableImage
  dsimp only
  rw [List.length_append, hflat s.list h]
  rfl

/-- **A scan of a table that was committed** publishes its partitions. -/
theorem scan_image {e : PtableEntry} (C : Committed s p e) (hflash : FlashHolds flash e.offset (ptableImage crc32 s)) :
    ptableScan crc32 ⟨none, 0, [], s.others, []⟩ p.name e.offset (flashRead p.dev.dev.totalSize flash) [] =
      (tableState p s.others s.list, 0) := by
  have M := C.mounted
  have R := M.registered
  have hE := R.entries e C.self
  have hroom := C.room
  have hin := hE.inside
  unfold PtableEntry.stop at hin
  have himg := ptableImage_length crc32 C.sized
  have hlt : ptableLength s.list.length < 2 ^ 32 := by
    have h1 := C.short
    have h2 := p.dev.dev.blockSize_le
    lia
  -- the header, and then the entries
  generalize hcrc : s.list.foldl (fun c e => crc32 c e.encode % 2 ^ 32)
    (crc32 0 (ptableHeader 0 s.gen (ptableLength s.list.length)) % 2 ^ 32) = crc
  have hcrclt : crc < 2 ^ 32 := by
    have hfold : ∀ (l : List PtableEntry) (c : Nat), c < 2 ^ 32 → l.foldl (fun c e => crc32 c e.encode % 2 ^ 32) c < 2 ^ 32 := by
      intro l
      induction l with
      | nil =>
        intro c hc
        exact hc
      | cons a l ih =>
        intro c _
        exact ih _ (Nat.mod_lt _ (by decide))
    rw [← hcrc]
    exact hfold _ _ (Nat.mod_lt _ (by decide))
  have hparts : ptableImage crc32 s =
      ptableHeader crc s.gen (ptableLength s.list.length) ++ s.list.flatMap PtableEntry.encode := by
    unfold ptableImage
    dsimp only
    rw [hcrc]
  rw [hparts] at hflash
  obtain ⟨f0, f4, f8, f12⟩ := ptableHeader_fields s.gen hcrclt hlt
  have hhead : (ptableHeader crc s.gen (ptableLength s.list.length)).length = ptableHeaderSize := rfl
  have hlen : ptableLength s.list.length = ptableHeaderSize + ptableEntrySize * s.list.length := rfl
  have hread := hflash.left.read p.dev.dev.totalSize (by rw [hhead]; decide) (by rw [hhead]; lia)
  have hreads := FlashHolds.reads p.dev.dev.totalSize hflash.right C.sized (by rw [hhead]; lia)
  rw [hhead] at hread hreads
  have hn : (ptableLength s.list.length - ptableHeaderSize) / ptableEntrySize = s.list.length := by
    rw [hlen, Nat.add_sub_cancel_left]
    exact Nat.mul_div_cancel_left _ (by decide)
  have hmod : (ptableLength s.list.length - ptableHeaderSize) % ptableEntrySize = 0 := by
    rw [hlen, Nat.add_sub_cancel_left]
    exact Nat.mul_mod_right _ _
  have hself : ∀ a ∈ s.list, a.cname = PTABLE_PART_NAME → a.offset = e.offset := by
    intro a ha hname
    rw [R.unique ha C.self (hname.trans C.name.symm)]
  have hany : s.list.any (·.cname = PTABLE_PART_NAME) = true :=
    List.any_eq_true.mpr ⟨e, C.self, decide_eq_true C.name⟩
  have hscan := scanEntries_image crc32 [] (crc32 0 (ptableHeader 0 s.gen (ptableLength s.list.length)) % 2 ^ 32) false
    R.found hreads M.apart R.names R.entries R.foreign C.sized hself
  have hstate : tableState p s.others [] = ⟨some p, 0, [], s.others, []⟩ := rfl
  rw [List.nil_append, hcrc, hany, hstate] at hscan
  unfold ptableScan
  rw [reset_unmounted rfl rfl]
  have hopen : (⟨none, 0, [], s.others, []⟩ : Ptable).bioOpen p.name = some p := by
    unfold Ptable.bioOpen
    rw [List.append_nil]
    exact R.found
  dsimp only
  rw [hopen]
  dsimp only
  rw [hread]
  dsimp only
  rw [f0, f4, f8, f12, hhead, ptableHeader_mod, if_neg (by lia), if_neg (by simp), if_neg (by lia),
    if_neg (Nat.not_lt.mpr C.short), if_neg (by rw [hmod]; decide), hn]
  rw [hscan]
  dsimp only
  rw [if_neg (by simp), if_neg (by simp)]

/-! ## a commit -/

theorem Committed.find_part {e : PtableEntry} (C : Committed s p e) :
    s.parts.find? (·.name = PTABLE_PART_NAME) = some (e.part p.dev) := by
  have R := C.mounted.registered
  have hmem : e.part p.dev ∈ s.parts := R.parts.mem_iff.mpr (List.mem_map_of_mem C.self)
  have hsome : (s.parts.find? (·.name = PTABLE_PART_NAME)).isSome :=
    List.find?_isSome.mpr ⟨_, hmem, decide_eq_true C.name⟩
  obtain ⟨d, hd⟩ := Option.isSome_iff_exists.mp hsome
  obtain ⟨a, ha, rfl⟩ := List.mem_map.mp (R.parts.mem_iff.mp (List.mem_of_find?_eq_some hd))
  have hname : a.cname = PTABLE_PART_NAME := of_decide_eq_true (List.find?_some hd :)
  rw [hd, R.unique ha C.self (hname.trans C.name.symm)]

theorem Committed.others_ne {e : PtableEntry} (C : Committed s p e) : ∀ d ∈ s.others, d.name ≠ PTABLE_PART_NAME := by
  rw [← C.name]
  exact C.mounted.registered.foreign e C.self

theorem Committed.part_size {e : PtableEntry} (C : Committed s p e) : (e.part p.dev).dev.dev.totalSize = e.length := by
  obtain ⟨b, start, hb, -, h⟩ := (C.mounted.registered.entries e C.self).sub
  rw [hb]
  exact b.total_mul.trans h

/-- **A commit** that ends: what it returns, and what a scan finds. -/
theorem commit_spec (crc32 : Nat → List UInt8 → Nat) {e : PtableEntry} (C : Committed s p e) {w : WriteEnd} (hmem : w.mem = true) (hio : w.io = true) :
    ∃ g, commitTable w (s, none) = ({ s with gen := g }, 0) ∧ Committed { s with gen := g } p e ∧
      ∀ fill flash, FlashHolds (commitFlash crc32 s w fill flash) e.offset (ptableImage crc32 s) := by
  have hroom := C.room
  have hother : ¬ (s.others.any (·.name = PTABLE_PART_NAME)) = true := by
    intro h
    obtain ⟨d, hd, he⟩ := List.any_eq_true.mp h
    exact C.others_ne d hd (of_decide_eq_true he)
  have hopen : s.bioOpen PTABLE_PART_NAME = some (e.part p.dev) := by
    have hnone : s.others.find? (·.name = PTABLE_PART_NAME) = none := by
      apply List.find?_eq_none.mpr
      intro d hd h
      exact C.others_ne d hd (of_decide_eq_true h)
    unfold Ptable.bioOpen
    rw [List.find?_append, hnone, C.find_part]
    rfl
  refine ⟨add32 s.gen 1, ?_, ⟨C.mounted.gen _, C.self, C.name, C.sized, C.short⟩, ?_⟩
  · show ptableWrite s w = _
    unfold ptableWrite
    rw [C.mounted.registered.mounted]
    dsimp only
    rw [hopen]
    dsimp only
    rw [C.part_size, if_neg (by lia), if_neg (by rw [hmem]; decide), if_pos hio]
  · intro fill flash i hi
    rw [ptableImage_length crc32 C.sized] at hi
    have hno : ¬ (s.others.any (·.name = PTABLE_PART_NAME) = true ∨ ptableLength s.list.length > e.length ∨
        ¬ w.mem = true) := by
      rintro (h | h | h)
      · exact hother h
      · lia
      · exact h hmem
    unfold commitFlash
    rw [C.find_part]
    dsimp only
    rw [C.part_size, (C.mounted.registered.entries e C.self).range, if_neg hno, ptableImage_length crc32 C.sized]
    dsimp only
    rw [if_neg (by lia), if_pos ⟨hio, by lia⟩, Nat.add_sub_cancel_left]

/-! ## runs -/

theorem ptableName_length (name : List UInt8) : (ptableName name).length = MAX_FLASH_PTABLE_NAME_LEN := by
  have h : (name.take (MAX_FLASH_PTABLE_NAME_LEN - 1)).length ≤ MAX_FLASH_PTABLE_NAME_LEN - 1 := List.length_take_le _ _
  unfold ptableName
  dsimp only
  rw [List.length_append, List.length_replicate]
  unfold MAX_FLASH_PTABLE_NAME_LEN at *
  omega

theorem EntryOk.sized {q : Dev} {e : PtableEntry} (h : EntryOk q e) (hf : e.flags = 0) (name : List UInt8)
    (hn : e.name = ptableName name) : e.Sized := by
  have h1 := h.inside
  have h2 := q.dev.total_lt
  unfold PtableEntry.stop at h1
  refine ⟨by omega, by omega, by omega, ?_⟩
  rw [hn]
  exact ptableName_length name

/-- nothing is mounted, or a table that was committed -/
def FlashInv (p : BioDev) (σ : PtableFlash) : Prop :=
  σ.pt.others.find? (·.name = p.name) = some p ∧
    ((σ.pt.bdev = none ∧ σ.pt.list = [] ∧ σ.pt.parts = []) ∨ ∃ e, Committed σ.pt p e)

theorem FlashInv.inv {σ : PtableFlash} (I : FlashInv p σ) : PtableInv σ.pt := by
  rcases I.2 with h | ⟨e, C⟩
  · exact .inl h
  · exact .inr ⟨p, C.mounted⟩

/-- the same table, the same devices and the same flash -/
structure Unchanged (σ σ' : PtableFlash) : Prop where
  bdev : σ'.pt.bdev = σ.pt.bdev
  list : σ'.pt.list = σ.pt.list
  parts : σ'.pt.parts = σ.pt.parts
  others : σ'.pt.others = σ.pt.others
  flash : σ'.flash = σ.flash

theorem FlashInv.unchanged {σ σ' : PtableFlash} (I : FlashInv p σ) (h : Unchanged σ σ') : FlashInv p σ' := by
  have hpt : σ'.pt = { σ.pt with gen := σ'.pt.gen } := by
    obtain ⟨⟨bdev, gen, list, others, parts⟩, flash⟩ := σ'
    obtain ⟨rfl, rfl, rfl, rfl, -⟩ := h
    rfl
  unfold FlashInv
  rw [hpt]
  refine ⟨I.1, I.2.imp_right ?_⟩
  rintro ⟨e, C⟩
  exact ⟨e, C.mounted.gen _, C.self, C.name, C.sized, C.short⟩

/-- a scan finds the partitions of the table in memory -/
def Found (crc32 : Nat → List UInt8 → Nat) (p : BioDev) (σ : PtableFlash) : Prop :=
  ∃ e ∈ σ.pt.list, e.cname = PTABLE_PART_NAME ∧ ∃ t, freshScan crc32 p σ e.offset = (t, 0) ∧ t.list = σ.pt.list ∧
    t.parts.Perm σ.pt.parts

/-- what a call comes to: to an error and nothing else, or to the commit of a table -/
theorem prepare_spec {σ : PtableFlash} (I : FlashInv p σ) {op : PtableOp} (hg : op.Commits p σ) {t : Ptable}
    {r : Option Int} (h : op.prepare p.name σ.pt = some (t, r)) :
    (∃ err, r = some err ∧ err < 0 ∧ Unchanged σ ⟨t, σ.flash⟩) ∨ (r = none ∧ t.others = σ.pt.others ∧ ∃ e, Committed t p e) := by
  obtain ⟨hfound, hinv⟩ := I
  have I' : PtableInv σ.pt := FlashInv.inv ⟨hfound, hinv⟩
  obtain ⟨hshort, hg⟩ := hg
  have hsame : Unchanged σ ⟨σ.pt, σ.flash⟩ := ⟨rfl, rfl, rfl, rfl, rfl⟩
  cases op with
  | scan => cases h
  | createDefault bdevName offset mem w =>
    obtain ⟨hf, hnone⟩ := hg
    have hdev : bdevName = p.name := by
      by_contra hne
      rw [PtableOp.prepare, if_neg hne] at h
      cases h
    have hprep : (PtableOp.createDefault bdevName offset mem w).prepare p.name σ.pt = prepareCreate σ.pt bdevName offset mem :=
      if_pos hdev
    rw [hprep] at h hshort hnone
    rcases prepareCreate_spec I' hf bdevName offset mem with ⟨err, hr, herr⟩ | ⟨q, len, e, he, hname, hr, hq, hE, hF⟩
    · obtain ⟨rfl, rfl⟩ := Prod.mk.inj (Option.some.inj (hr.symm.trans h))
      have hb : σ.pt.bdev = none := by
        rcases hnone with hb | ⟨t, ht⟩
        · exact hb
        · rw [hr] at ht
          cases ht
      rcases hinv with ⟨-, h1, h2⟩ | ⟨e, C⟩
      · exact .inl ⟨err, rfl, herr, hb.symm, h1.symm, h2.symm, rfl, rfl⟩
      · rw [C.mounted.registered.mounted] at hb
        cases hb
    · obtain ⟨rfl, rfl⟩ := Prod.mk.inj (Option.some.inj (hr.symm.trans h))
      have hqp : q = p := by
        rw [hdev] at hq
        exact Option.some.inj (hq.symm.trans hfound)
      subst hqp
      rw [← hname] at hf
      have M := (mounted_nil hq).push hf hE (fun a ha => (List.not_mem_nil ha).elim) hF
      have hlist : (Ptable.push ⟨some q, 0, [], σ.pt.others, []⟩ q.dev e).list = [e] := rfl
      refine .inr ⟨rfl, rfl, e, M, .head _, hname, ?_, (hshort _ hr).2.2⟩
      intro a ha
      rw [hlist, List.mem_singleton] at ha
      rw [ha]
      exact hE.sized (by rw [he]) PTABLE_PART_NAME (by rw [he])
  | add name minLen allocEnd mem w =>
    rcases hinv with ⟨hb, -, -⟩ | ⟨e0, C⟩
    · have hprep : (PtableOp.add name minLen allocEnd mem w).prepare p.name σ.pt = some (σ.pt, some ERR_NOT_MOUNTED) := by
        show prepareAdd σ.pt _ minLen allocEnd mem = _
        unfold prepareAdd
        rw [hb]
      obtain ⟨rfl, rfl⟩ := Prod.mk.inj (Option.some.inj (hprep.symm.trans h))
      exact .inl ⟨_, rfl, by decide, hsame⟩
    · rcases prepareAdd_spec C.mounted hg (takeWhile_ne name) minLen allocEnd mem with
        ⟨err, hr, herr⟩ | ⟨offset, len, e, he, hname, hr, hE, hnew, hF⟩
      · obtain ⟨rfl, rfl⟩ := Prod.mk.inj (Option.some.inj (hr.symm.trans h))
        exact .inl ⟨err, rfl, herr, hsame⟩
      · obtain ⟨rfl, rfl⟩ := Prod.mk.inj (Option.some.inj (hr.symm.trans h))
        have hg : ∀ d ∈ σ.pt.others, d.name ≠ name.takeWhile (· ≠ 0) := hg
        rw [← hname] at hg
        have hperm := push_perm e σ.pt.list
        refine .inr ⟨rfl, rfl, e0, C.mounted.push hg hE hnew hF, ?_, C.name, ?_, (hshort _ hr).2.2⟩
        · exact hperm.mem_iff.mpr (.tail _ C.self)
        · intro a ha
          rcases List.mem_cons.mp (hperm.mem_iff.mp ha) with rfl | ha
          · exact hE.sized (by rw [he]) (name.takeWhile (· ≠ 0)) (by rw [he])
          · exact C.sized a ha
  | remove name w =>
    rcases hinv with ⟨hb, -, -⟩ | ⟨e0, C⟩
    · have hprep : (PtableOp.remove name w).prepare p.name σ.pt = none := by
        show prepareRemove σ.pt _ = _
        unfold prepareRemove
        rw [hb]
        rfl
      rw [hprep] at h
      cases h
    · rcases prepareRemove_spec C.mounted (name.takeWhile (· ≠ 0)) with ⟨err, hr, herr⟩ | ⟨hne, parts, hr, M⟩
      · obtain ⟨rfl, rfl⟩ := Prod.mk.inj (Option.some.inj (hr.symm.trans h))
        exact .inl ⟨err, rfl, herr, hsame⟩
      · obtain ⟨rfl, rfl⟩ := Prod.mk.inj (Option.some.inj (hr.symm.trans h))
        refine .inr ⟨rfl, rfl, e0, M, ?_, C.name, ?_, (hshort _ hr).2.2⟩
        · refine (List.mem_eraseP_of_neg ?_).mpr C.self
          intro h
          exact hne ((of_decide_eq_true h).symm.trans C.name)
        · exact fun a ha => C.sized a (List.mem_of_mem_eraseP ha)

/-- a call is its preparation and the commit -/
theorem ptableCall_prepare (crc32 : Nat → List UInt8 → Nat) {σ : PtableFlash} {op : PtableOp} {t : Ptable} {r : Option Int}
    (h : op.prepare p.name σ.pt = some (t, r)) : ∃ s err, commitTable op.writeEnd (t, r) = (s, err) ∧
      (ptableCall crc32 σ.pt op = some (s, err) ∨ err < 0 ∧ ptableCall crc32 σ.pt op = some (ptableReset s, err) ∧
        ∃ bdevName offset mem w, op = .createDefault bdevName offset mem w) := by
  refine ⟨_, _, rfl, ?_⟩
  cases op with
  | scan => cases h
  | createDefault bdevName offset mem w =>
    rw [PtableOp.prepare] at h
    split at h
    · show (prepareCreate σ.pt bdevName offset mem).map _ = _ ∨ _
      rw [ptableCall, h, Option.map_some]
      dsimp only
      split
      · rename_i herr
        exact .inr ⟨herr, rfl, _, _, _, _, rfl⟩
      · exact .inl rfl
    · cases h
  | add name minLen allocEnd mem w =>
    rw [ptableCall, show prepareAdd σ.pt _ minLen allocEnd mem = _ from h]
    exact .inl rfl
  | remove name w =>
    rw [ptableCall, show prepareRemove σ.pt _ = _ from h]
    exact .inl rfl

/-- **One call** -/
theorem flashCall_spec {σ σ' : PtableFlash} (I : FlashInv p σ) {op : PtableOp} {fill : Nat → UInt8} (hg : op.Commits p σ)
    {err : Int} (h : flashCall crc32 p.name σ op fill = some (σ', err)) :
    FlashInv p σ' ∧ (err = 0 → Found crc32 p σ') ∧ (err ≠ 0 → Unchanged σ σ') := by
  unfold flashCall at h
  cases hp : op.prepare p.name σ.pt with
  | none =>
    rw [hp] at h
    cases h
  | some tr =>
    obtain ⟨t, r⟩ := tr
    obtain ⟨s, err', hcommit, hcall⟩ := ptableCall_prepare crc32 hp
    rcases prepare_spec I hg hp with ⟨e, rfl, herr, hun⟩ | ⟨rfl, hothers, e, C⟩
    · obtain ⟨rfl, rfl⟩ := Prod.mk.inj hcommit
      have hcall : ∃ t', ptableCall crc32 σ.pt op = some (t', e) ∧ Unchanged σ ⟨t', σ.flash⟩ := by
        rcases hcall with hc | ⟨-, hc, bdevName, offset, mem, w, rfl⟩
        · exact ⟨t, hc, hun⟩
        -- a default table that is not created, and none is mounted
        · have hb : σ.pt.bdev = none := by
            rcases hg.2.2 with hb | ⟨t', ht'⟩
            · exact hb
            · rw [hp] at ht'
              cases ht'
          have hempty : σ.pt.list = [] ∧ σ.pt.parts = [] := by
            rcases I.2 with ⟨-, h⟩ | ⟨e', C⟩
            · exact h
            · rw [C.mounted.registered.mounted] at hb
              cases hb
          refine ⟨_, hc, ?_⟩
          rw [reset_unmounted (hun.list.trans hempty.1) (hun.parts.trans hempty.2)]
          exact ⟨hb.symm, hempty.1.symm, hempty.2.symm, hun.others, rfl⟩
      obtain ⟨t', hcall, hun'⟩ := hcall
      rw [hp, hcall] at h
      obtain ⟨rfl, rfl⟩ := Prod.mk.inj (Option.some.inj h)
      exact ⟨I.unchanged hun', fun h0 => by omega, fun _ => hun'⟩
    · obtain ⟨hmem, hio, -⟩ := hg.1 t hp
      obtain ⟨g, hg', C', hholds⟩ := commit_spec crc32 C hmem hio
      obtain ⟨rfl, rfl⟩ := Prod.mk.inj (hcommit.symm.trans hg')
      have hdone : ptableCall crc32 σ.pt op = some ({ t with gen := g }, 0) := by
        rcases hcall with hc | ⟨hneg, -⟩
        · exact hc
        · exact absurd hneg (by decide)
      rw [hp, hdone] at h
      obtain ⟨rfl, rfl⟩ := Prod.mk.inj (Option.some.inj h)
      refine ⟨⟨?_, .inr ⟨e, C'⟩⟩, fun _ => ?_, fun h => absurd rfl h⟩
      · show t.others.find? _ = _
        rw [hothers]
        exact I.1
      · have hscan := scan_image C (hholds fill σ.flash)
        exact ⟨e, C.self, C.name, _, hscan, rfl, C.mounted.registered.parts.symm⟩

/-- **Round trip.**  In every run whose calls have new names and end the commit they come to, with a table of at most
one block: after a call that succeeds a scan finds the table in memory, and one that fails changes nothing. -/
theorem ptable_round_trip {σ σ' : PtableFlash} {op : PtableOp} {fill : Nat → UInt8} {err : Int}
    (h : (flashSys crc32 p).Run (fun σ op => op.1.Commits p σ) σ) (hg : op.Commits p σ)
    (hc : flashCall crc32 p.name σ op fill = some (σ', err)) :
    (err = 0 → Found crc32 p σ') ∧ (err ≠ 0 → Unchanged σ σ') := by
  have I : FlashInv p σ := by
    apply h.invariant (I := FlashInv p)
    · rintro σ ⟨h1, h2, h3, h4⟩
      exact ⟨h4, .inl ⟨h1, h2, h3⟩⟩
    · intro σ op σ' I hg hst
      obtain ⟨⟨σ1, err⟩, hr, rfl⟩ := Option.map_eq_some_iff.mp hst
      exact (flashCall_spec I hg hr).1
  exact (flashCall_spec I hg hc).2

end
/-! ## a default table -/

/-- the flash of `bareFlash` -/
def smallFlash : BioDev := ⟨[102], .root Bio.smallDev⟩

def createOp : PtableOp := .createDefault [102] 0 ⟨true, true⟩ ⟨true, true⟩

def addOp : PtableOp := .add [97] 1024 false ⟨true, true⟩ ⟨true, true⟩

theorem ptable_round_trip_add : ∃ σ σ', flashCall crc32 [102] ⟨bareFlash, fun _ => 0⟩ createOp (fun _ => 0) = some (σ, 0) ∧
    flashCall crc32 [102] σ addOp (fun _ => 0) = some (σ', 0) ∧ Found crc32 smallFlash σ' := by
  have h1 : (flashCall crc32 [102] ⟨bareFlash, fun _ => 0⟩ createOp fun _ => 0).map (·.2) = some 0 := by decide
  have hp1 : (createOp.prepare [102] bareFlash).map (fun r => r.1.list.length) = some 1 := by decide
  have h2 : ((flashCall crc32 [102] ⟨bareFlash, fun _ => 0⟩ createOp fun _ => 0).bind fun r =>
      flashCall crc32 [102] r.1 addOp fun _ => 0).map (·.2) = some 0 := by decide
  have hp2 : ((flashCall crc32 [102] ⟨bareFlash, fun _ => 0⟩ createOp fun _ => 0).bind fun r =>
      addOp.prepare [102] r.1.pt).map (fun r => r.1.list.length) = some 2 := by decide
  have hothers : (flashCall crc32 [102] ⟨bareFlash, fun _ => 0⟩ createOp fun _ => 0).map
      (fun r => r.1.pt.others.map (·.name)) = some [[102]] := by decide
  obtain ⟨⟨σ, err⟩, hc1, herr⟩ := Option.map_eq_some_iff.mp h1
  obtain rfl : err = 0 := herr
  rw [hc1, Option.bind_some] at h2 hp2
  rw [hc1] at hothers
  obtain ⟨⟨σ', err⟩, hc2, herr⟩ := Option.map_eq_some_iff.mp h2
  obtain rfl : err = 0 := herr
  have hg1 : createOp.Commits smallFlash ⟨bareFlash, fun _ => 0⟩ := by
    refine ⟨?_, ?_, .inl rfl⟩
    · intro t ht
      have ht' : createOp.prepare [102] bareFlash = some (t, none) := ht
      rw [ht'] at hp1
      have hl : t.list.length = 1 := Option.some.inj hp1
      refine ⟨rfl, rfl, ?_⟩
      rw [hl]
      decide
    · show ∀ d ∈ bareFlash.others, d.name ≠ PTABLE_PART_NAME
      decide
  have hg2 : addOp.Commits smallFlash σ := by
    constructor
    · intro t ht
      have ht' : addOp.prepare [102] σ.pt = some (t, none) := ht
      rw [ht'] at hp2
      have hl : t.list.length = 2 := Option.some.inj hp2
      refine ⟨rfl, rfl, ?_⟩
      rw [hl]
      decide
    · intro d hd h
      have hm : d.name ∈ σ.pt.others.map (·.name) := List.mem_map_of_mem hd
      rw [show σ.pt.others.map (·.name) = [[102]] from Option.some.inj hothers, List.mem_singleton] at hm
      rw [hm] at h
      exact absurd h (by decide)
  have h0 : (flashSys crc32 smallFlash).Run (fun σ op => op.1.Commits smallFlash σ) ⟨bareFlash, fun _ => 0⟩ :=
    .init ⟨rfl, rfl, rfl, rfl⟩
  have hst : (flashSys crc32 smallFlash).step ⟨bareFlash, fun _ => 0⟩ (createOp, fun _ => 0) σ :=
    Option.map_eq_some_iff.mpr ⟨_, hc1, rfl⟩
  exact ⟨σ, σ', hc1, hc2, (ptable_round_trip (.step h0 hg1 hst) hg2 hc2).1 rfl⟩

/-- blocks of 32 bytes, with a name -/
def tinyFlash : BioDev := ⟨[102], .root (plainDev 5 4096 (by decide))⟩

/-- the first table of `tinyFlash` is longer than a block: no scan finds it -/
theorem not_ptable_round_trip : ¬ ∀ (p : BioDev) (σ σ' : PtableFlash) (op : PtableOp) (fill : Nat → UInt8) (err : Int),
    (flashSys crc32 p).Reach σ → flashCall crc32 p.name σ op fill = some (σ', err) →
    (err = 0 → Found crc32 p σ') ∧ (err ≠ 0 → Unchanged σ σ') := by
  intro hall
  have h1 : (flashCall crc32 [102] ⟨⟨none, 0, [], [tinyFlash], []⟩, fun _ => 0⟩ createOp fun _ => 0).map
      (fun r => (r.2, r.1.pt.list.map (·.offset), (freshScan crc32 tinyFlash r.1 0).2)) = some (0, [0], ERR_NOT_FOUND) := by
    decide
  obtain ⟨⟨σ', err⟩, hc, hr⟩ := Option.map_eq_some_iff.mp h1
  obtain ⟨rfl, hr⟩ := Prod.mk.inj hr
  obtain ⟨hlist, hscan⟩ := Prod.mk.inj hr
  obtain ⟨e, he, -, t, ht, -⟩ := (hall tinyFlash _ σ' createOp _ 0 (.init ⟨rfl, rfl, rfl, rfl⟩) hc).1 rfl
  have hm : e.offset ∈ σ'.pt.list.map (·.offset) := List.mem_map_of_mem he
  rw [hlist, List.mem_singleton] at hm
  rw [hm] at ht
  rw [ht] at hscan
  exact absurd (show (0 : Int) = ERR_NOT_FOUND from hscan) (by decide)

end LkHv
