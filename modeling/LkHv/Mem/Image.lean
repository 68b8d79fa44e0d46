import LkHv.Lib.Pieces
import LkHv.Mem.Segments

/-!
# Loading an image (`hv/hv_image.c`, `lib/elf/elf.c`)

A segment is read to the physical address of its first byte and on from there; a refused `malloc` of the program
headers leaves `ret` at `NO_ERROR`; the program headers are taken 56 bytes apart whatever `e_phentsize` says.

* `vmLoadElf`, `calcFdtPos`, `vmLoadFdt`   the source's, with a log of the pieces they store;
* `LoadOk`              stores only where the VM's tables map, and after success the guest reads the image;
* `LoadWhen`            the condition, on the headers, the tables and the results of the file system;
* `load_image`          `LoadOk` for every contents of memory if and only if `LoadWhen`;
* `load_image_fails`    a refused `malloc` counts as success.

The tables are not among the bytes: a store that leaves what they map has already gone wrong.
-/

namespace LkHv.Image
open Pieces

abbrev Byte := BitVec 8

instance : Nontrivial Byte := ⟨0, 1, by decide⟩

/-! ## the file -/

/-- a little-endian number -/
def le (bs : List Byte) : Nat := bs.foldr (fun b n => b.toNat + 256 * n) 0

/-- the number in the `len` bytes at `off` -/
def num (bs : List Byte) (off len : Nat) : Nat := le ((bs.drop off).take len)

/-- the fields of `struct Elf64_Ehdr` that are read -/
structure Eheader where
  eIdent : List Byte
  eMachine : Nat
  eEntry : Nat
  ePhoff : Nat
  ePhentsize : Nat
  ePhnum : Nat
  deriving DecidableEq

def Eheader.ofBytes (bs : List Byte) : Eheader where
  eIdent := bs.take 16
  eMachine := num bs 18 2
  eEntry := num bs 24 8
  ePhoff := num bs 32 8
  ePhentsize := num bs 54 2
  ePhnum := num bs 56 2

/-- `verify_eheader`, for a little-endian ARM64 -/
def verifyEheader (hdr : Eheader) : Int :=
  if hdr.eIdent.take 4 ≠ [0x7f, 0x45, 0x4c, 0x46] then ERR_NOT_FOUND
  else if hdr.eIdent[4]? ≠ some 2 then ERR_NOT_FOUND
  else if hdr.eIdent[5]? ≠ some 1 then ERR_NOT_FOUND
  else if hdr.eIdent[6]? ≠ some 1 then ERR_NOT_FOUND
  else if hdr.ePhoff = 0 then ERR_NOT_FOUND
  else if hdr.ePhentsize < 56 then ERR_NOT_FOUND
  else if hdr.eMachine ≠ 183 then ERR_NOT_FOUND
  else 0

/-- the fields of `struct Elf64_Phdr` that are read -/
structure Pheader where
  pType : Nat
  pOffset : Nat
  pPaddr : Nat
  pFilesz : Nat
  pMemsz : Nat
  deriving DecidableEq

def PT_LOAD : Nat := 1

/-- the program header at `off` -/
def Pheader.ofBytes (bs : List Byte) (off : Nat) : Pheader where
  pType := num bs off 4
  pOffset := num bs (off + 8) 8
  pPaddr := num bs (off + 24) 8
  pFilesz := num bs (off + 32) 8
  pMemsz := num bs (off + 40) 8

/-- `pl_hdr + i`, for all `i < phdr_num` -/
def pheaders (bs : List Byte) (phdrNum : Nat) : List Pheader :=
  (List.range phdrNum).map fun i => Pheader.ofBytes bs (56 * i)

/-- what the file system answers for one open file; a read has a number, gets an offset and a length, and gives
its result and the bytes it stored -/
structure Fs where
  openRet : Int
  statRet : Int
  statSize : Nat
  read : Nat → Nat → Nat → Int × List Byte

/-- the file system is right about what it does not refuse: a full read stores the bytes of the file -/
structure Fs.Serves (fs : Fs) (file : List Byte) : Prop where
  full : ∀ n off len, (fs.read n off len).1 = len →
    off + len ≤ file.length ∧ (fs.read n off len).2 = (file.drop off).take len
  size : fs.statRet = 0 → fs.statSize = file.length
  bound : file.length < 2 ^ 63

/-! ## the loader -/

/-- a VM after `lkhv_map_ram`; `junk` is what lies around `mem_seg` -/
structure Loader where
  cfg : Config
  tables : PhysMem
  vm : VmMem
  junk : Int → PhyMemSeg

namespace Loader

def ipaToPa (L : Loader) (ipa : Nat) : Nat := LkHv.ipaToPa L.cfg L.tables L.vm.archMem ipa

/-- the guest's lookup -/
def walk (L : Loader) (ipa : Nat) : Option Nat := stage2Walk L.cfg L.tables L.vm.archMem.vttbr ipa

/-- the tables map the physical byte -/
def Mapped (L : Loader) (a : Nat) : Prop := ∃ ipa, L.walk ipa = some a

/-- `paddr_to_kvaddr`, as a physical address; `none` is the null pointer -/
def paddrToKvaddr (L : Loader) (pa : Nat) : Option Nat := if L.cfg.kmapped pa then some pa else none

/-- `vm->mem.mem_seg[i]` -/
def seg (L : Loader) (i : Int) : PhyMemSeg :=
  if 0 ≤ i then ((L.vm.memSeg.getD [])[i.toNat]?).getD (L.junk i) else L.junk i

end Loader

/-- memory, the pieces stored, and `vm->info`; `wild` is set once a byte is stored through a null pointer -/
structure State where
  mem : Nat → Byte
  log : List (Nat × List Byte)
  wild : Bool
  entry : Nat
  args : Nat

/-- `bs` is stored at `kvaddr` -/
def State.store (s : State) (kvaddr : Option Nat) (bs : List Byte) : State :=
  match kvaddr with
  | none => { s with wild := s.wild || !bs.isEmpty }
  | some pa => { s with mem := put s.mem (pa, bs), log := s.log ++ [(pa, bs)] }

/-- a 64-bit number as an `ssize_t` -/
def toSsize (n : Nat) : Int := if n < 2 ^ 63 then n else n - 2 ^ 64

/-- `m_zero` -/
def mZero (ph : Pheader) : Int := toSsize ((ph.pMemsz + (2 ^ 64 - ph.pFilesz)) % 2 ^ 64)

/-- `kvaddr + f_size` -/
def behind (kvaddr : Option Nat) (fSize : Int) : Option Nat := kvaddr.map fun pa : Nat => ((pa : Int) + fSize).toNat

/-- the bytes that are cleared -/
def zeroes (ph : Pheader) : List Byte := List.replicate (mZero ph).toNat 0

/-- `load_pl`, with its read the `n`-th -/
def loadPl (L : Loader) (fs : Fs) (n : Nat) (plHdr : Pheader) (s : State) : State × Int :=
  if plHdr.pType ≠ PT_LOAD then (s, 0)
  else
    let ldPaddr := L.ipaToPa plHdr.pPaddr
    if ldPaddr = 0 then (s, ERR_NOT_FOUND)
    else
      let kvaddr := L.paddrToKvaddr ldPaddr
      let r := fs.read n plHdr.pOffset plHdr.pFilesz
      let s := s.store kvaddr r.2
      if r.1 ≠ toSsize plHdr.pFilesz then (s, ERR_IO)
      else if 0 < mZero plHdr then (s.store (behind kvaddr (toSsize plHdr.pFilesz)) (zeroes plHdr), 0)
      else (s, 0)

/-- the loop of `vm_load_elf` -/
def loadLoop (L : Loader) (fs : Fs) : Nat → List Pheader → State → State × Int
  | _, [], s => (s, 0)
  | n, plHdr :: rest, s =>
    let r := loadPl L fs n plHdr s
    if r.2 ≠ 0 then (r.1, ERR_IO) else loadLoop L fs (n + 1) rest r.1

/-- `vm_load_elf`, where `malloc` may fail -/
def vmLoadElf (L : Loader) (fs : Fs) (malloc : Bool) (s : State) : State × Int :=
  if fs.openRet ≠ 0 then (s, fs.openRet)
  else
    let h := fs.read 0 0 64
    if h.1 ≠ 64 then (s, ERR_IO)
    else
      let elfHdr := Eheader.ofBytes h.2
      if verifyEheader elfHdr ≠ 0 then (s, verifyEheader elfHdr)
      -- `ret` is still what `verify_eheader` returned
      else if malloc = false then (s, 0)
      else
        let phdrLen := 56 * elfHdr.ePhnum
        let t := fs.read 1 elfHdr.ePhoff phdrLen
        if t.1 ≠ phdrLen then (s, ERR_IO)
        else
          let r := loadLoop L fs 2 (pheaders t.2 elfHdr.ePhnum) s
          if r.2 ≠ 0 then (r.1, ERR_IO) else ({ r.1 with entry := elfHdr.eEntry }, 0)

def calcFdtPos (L : Loader) (entry : Nat) : Int :=
  let seg := L.seg 0
  if seg.ipa ≤ entry ∧ entry ≤ (seg.ipa + VM_MEM_BLOCK_2M) % 2 ^ 64 then (L.vm.segNum : Int) - 1 else 0

/-- `vm_load_fdt`; `hasFdt` is whether the VM has a device tree -/
def vmLoadFdt (L : Loader) (fs : Fs) (hasFdt : Bool) (s : State) : State × Int :=
  if hasFdt = false then (s, 0)
  else if fs.openRet ≠ 0 then (s, fs.openRet)
  else
    let index := calcFdtPos L s.entry
    let kva := L.paddrToKvaddr (L.seg index).pa
    if fs.statRet ≠ 0 then (s, fs.statRet)
    else
      let r := fs.read 0 0 fs.statSize
      let s := s.store kva r.2
      if r.1 ≠ toSsize fs.statSize then (s, ERR_IO)
      else ({ s with args := (L.seg index).ipa }, 0)

/-- `lkhv_vm_load` of an ELF image -/
def loadImage (L : Loader) (fs dtb : Fs) (malloc hasFdt : Bool) (s : State) : State × Int :=
  let r := vmLoadElf L fs malloc s
  if r.2 ≠ 0 then r else vmLoadFdt L dtb hasFdt r.1

/-! ## what is to come of it -/

/-- the program headers of a file -/
def imageHeaders (file : List Byte) : List Pheader :=
  let hdr := Eheader.ofBytes file
  (List.range hdr.ePhnum).map fun i => Pheader.ofBytes file (hdr.ePhoff + hdr.ePhentsize * i)

/-- byte `k` of a segment -/
def byteOf (file : List Byte) (ph : Pheader) (k : Nat) : Byte :=
  if k < ph.pFilesz then file.getD (ph.pOffset + k) 0 else 0

/-- every byte stored is mapped for the VM -/
structure State.Inside (L : Loader) (s : State) : Prop where
  wild : s.wild = false
  log : ∀ p ∈ s.log, ∀ k < p.2.length, L.Mapped (p.1 + k)

/-- the guest reads the image -/
structure Holds (L : Loader) (file : List Byte) (s : State) : Prop where
  header : verifyEheader (Eheader.ofBytes file) = 0
  entry : s.entry = (Eheader.ofBytes file).eEntry
  bytes : ∀ ph ∈ imageHeaders file, ph.pType = PT_LOAD → ∀ k < max ph.pFilesz ph.pMemsz,
    (L.walk (ph.pPaddr + k)).map s.mem = some (byteOf file ph k)

/-- only bytes of the VM are stored to, and after success the guest reads the image -/
def LoadOk (L : Loader) (file : List Byte) (r : State × Int) : Prop := r.1.Inside L ∧ (r.2 = 0 → Holds L file r.1)

/-! ## the condition -/

/-- the program headers as the loader takes them, 56 bytes apart -/
def loaderHeaders (file : List Byte) : List Pheader :=
  let hdr := Eheader.ofBytes file
  (List.range hdr.ePhnum).map fun i => Pheader.ofBytes file (hdr.ePhoff + 56 * i)

/-- `load_pl` gets through -/
def Loaded (L : Loader) (fs : Fs) (n : Nat) (ph : Pheader) : Prop :=
  ph.pType = PT_LOAD → L.ipaToPa ph.pPaddr ≠ 0 ∧ (fs.read n ph.pOffset ph.pFilesz).1 = toSsize ph.pFilesz

def AllLoaded (L : Loader) (fs : Fs) : Nat → List Pheader → Prop
  | _, [] => True
  | n, ph :: rest => Loaded L fs n ph ∧ AllLoaded L fs (n + 1) rest

/-- `bs`, stored at `kvaddr`, goes to bytes mapped for the VM -/
def Fits (L : Loader) (kvaddr : Option Nat) (bs : List Byte) : Prop :=
  ∀ k < bs.length, ∃ pa, kvaddr = some pa ∧ L.Mapped (pa + k)

/-- what is read and what is cleared fits -/
def SegFits (L : Loader) (fs : Fs) (n : Nat) (ph : Pheader) : Prop :=
  ph.pType = PT_LOAD → L.ipaToPa ph.pPaddr ≠ 0 →
    Fits L (L.paddrToKvaddr (L.ipaToPa ph.pPaddr)) (fs.read n ph.pOffset ph.pFilesz).2 ∧
      ((fs.read n ph.pOffset ph.pFilesz).1 = toSsize ph.pFilesz →
        Fits L (behind (L.paddrToKvaddr (L.ipaToPa ph.pPaddr)) (toSsize ph.pFilesz)) (zeroes ph))

/-- up to the first segment that does not get through -/
def SegsFit (L : Loader) (fs : Fs) : Nat → List Pheader → Prop
  | _, [] => True
  | n, ph :: rest => SegFits L fs n ph ∧ (Loaded L fs n ph → SegsFit L fs (n + 1) rest)

/-- the header is read and right -/
def HeaderRead (fs : Fs) (file : List Byte) : Prop :=
  fs.openRet = 0 ∧ (fs.read 0 0 64).1 = 64 ∧ verifyEheader (Eheader.ofBytes file) = 0

/-- the program headers are read -/
def TableRead (fs : Fs) (file : List Byte) : Prop :=
  (fs.read 1 (Eheader.ofBytes file).ePhoff (56 * (Eheader.ofBytes file).ePhnum)).1 =
    (56 * (Eheader.ofBytes file).ePhnum : Nat)

/-- `vm_load_elf` returns 0 -/
def ElfLoads (L : Loader) (fs : Fs) (malloc : Bool) (file : List Byte) : Prop :=
  HeaderRead fs file ∧ (malloc = true → TableRead fs file ∧ AllLoaded L fs 2 (loaderHeaders file))

/-- `vm_load_fdt` returns 0 -/
def FdtLoads (dtb : Fs) (hasFdt : Bool) : Prop :=
  hasFdt = true → dtb.openRet = 0 ∧ dtb.statRet = 0 ∧ (dtb.read 0 0 dtb.statSize).1 = toSsize dtb.statSize

/-- the entry point after `vm_load_elf` -/
def entryOf (malloc : Bool) (file : List Byte) (entry : Nat) : Nat :=
  if malloc then (Eheader.ofBytes file).eEntry else entry

/-- The pieces of a segment: the bytes of the file from the physical address of the first one on, and zeroes
behind them.  A `p_filesz` of 2^63 or more is a negative number, and may be a refusal. -/
def segPieces (L : Loader) (fs : Fs) (file : List Byte) (n : Nat) (ph : Pheader) : List (Nat × List Byte) :=
  if ph.pType = PT_LOAD then
    [(L.ipaToPa ph.pPaddr, if ph.pFilesz < 2 ^ 63 then (file.drop ph.pOffset).take ph.pFilesz
        else (fs.read n ph.pOffset ph.pFilesz).2),
      (((L.ipaToPa ph.pPaddr : Int) + toSsize ph.pFilesz).toNat, zeroes ph)]
  else []

def imagePieces (L : Loader) (fs : Fs) (file : List Byte) : Nat → List Pheader → List (Nat × List Byte)
  | _, [] => []
  | n, ph :: rest => segPieces L fs file n ph ++ imagePieces L fs file (n + 1) rest

/-- the device tree, in its segment -/
def fdtPieces (L : Loader) (dtb : Fs) (hasFdt : Bool) (entry : Nat) : List (Nat × List Byte) :=
  if hasFdt then [((L.seg (calcFdtPos L entry)).pa, (dtb.read 0 0 dtb.statSize).2)] else []

/-- the pieces of a load that succeeds, in their order -/
def pieces (L : Loader) (fs dtb : Fs) (malloc hasFdt : Bool) (file : List Byte) (entry : Nat) :
    List (Nat × List Byte) :=
  (if malloc then imagePieces L fs file 2 (loaderHeaders file) else []) ++
    fdtPieces L dtb hasFdt (entryOf malloc file entry)

/-- The condition. -/
structure LoadWhen (L : Loader) (fs dtb : Fs) (malloc hasFdt : Bool) (file : List Byte) (entry : Nat) : Prop where
  /-- what is stored of the segments is mapped -/
  segs : HeaderRead fs file → malloc = true → TableRead fs file → SegsFit L fs 2 (loaderHeaders file)
  /-- what is stored of the device tree is mapped -/
  fdt : ElfLoads L fs malloc file → hasFdt = true → dtb.openRet = 0 → dtb.statRet = 0 →
    Fits L (L.paddrToKvaddr (L.seg (calcFdtPos L (entryOf malloc file entry))).pa) (dtb.read 0 0 dtb.statSize).2
  /-- a success has the program headers, or needs none -/
  table : ElfLoads L fs malloc file → FdtLoads dtb hasFdt → malloc = false → entry = (Eheader.ofBytes file).eEntry
  /-- after a success the tables map each byte of a segment, and the last piece there agrees -/
  image : ElfLoads L fs malloc file → FdtLoads dtb hasFdt → ∀ ph ∈ imageHeaders file, ph.pType = PT_LOAD →
    ∀ k < max ph.pFilesz ph.pMemsz, ∃ a, L.walk (ph.pPaddr + k) = some a ∧
      last (pieces L fs dtb malloc hasFdt file entry) a = some (byteOf file ph k)

/-! ## headers -/

theorem num_window {file : List Byte} {d m o l : Nat} (h : o + l ≤ m) :
    num ((file.drop d).take m) o l = num file (d + o) l := by
  unfold num
  rw [List.drop_take, List.take_take, List.drop_drop, Nat.min_eq_left (by omega)]

theorem eheader_window {file : List Byte} : Eheader.ofBytes ((file.drop 0).take 64) = Eheader.ofBytes file := by
  unfold Eheader.ofBytes
  rw [num_window (by decide), num_window (by decide), num_window (by decide), num_window (by decide),
    num_window (by decide), List.take_take]
  simp only [Nat.zero_add, List.drop_zero]
  rfl

theorem pheader_window {file : List Byte} {d m o : Nat} (h : o + 56 ≤ m) :
    Pheader.ofBytes ((file.drop d).take m) o = Pheader.ofBytes file (d + o) := by
  unfold Pheader.ofBytes
  rw [num_window (by lia), num_window (by lia), num_window (by lia), num_window (by lia), num_window (by lia)]
  simp only [Nat.add_assoc]

section
variable {L : Loader} {fs dtb : Fs} {file : List Byte} {s : State}

theorem pheaders_read (hs : fs.Serves file) (h : TableRead fs file) :
    pheaders (fs.read 1 (Eheader.ofBytes file).ePhoff (56 * (Eheader.ofBytes file).ePhnum)).2
      (Eheader.ofBytes file).ePhnum = loaderHeaders file := by
  unfold pheaders loaderHeaders
  rw [(hs.full _ _ _ h).2]
  apply List.map_congr_left
  intro i hi
  rw [List.mem_range] at hi
  exact pheader_window (by lia)

/-! ## stores -/

theorem store_inside (kvaddr : Option Nat) (bs : List Byte) :
    (s.store kvaddr bs).Inside L ↔ s.Inside L ∧ Fits L kvaddr bs := by
  cases kvaddr with
  | none =>
    constructor
    · intro h
      have hw : (s.wild || !bs.isEmpty) = false := h.wild
      rw [Bool.or_eq_false_iff] at hw
      have hbs : bs = [] := by
        have := hw.2
        simpa using this
      refine ⟨⟨hw.1, h.log⟩, fun k hk => ?_⟩
      rw [hbs] at hk
      exact absurd hk (Nat.not_lt_zero k)
    · rintro ⟨h, hf⟩
      have hbs : bs = [] := by
        cases bs with
        | nil => rfl
        | cons b bs =>
          obtain ⟨pa, hpa, -⟩ := hf 0 (Nat.zero_lt_succ _)
          cases hpa
      refine ⟨?_, h.log⟩
      show (s.wild || !bs.isEmpty) = false
      rw [h.wild, hbs]
      rfl
  | some pa =>
    constructor
    · intro h
      refine ⟨⟨h.wild, fun p hp => h.log p (List.mem_append_left _ hp)⟩, fun k hk => ⟨pa, rfl, ?_⟩⟩
      exact h.log (pa, bs) (List.mem_append_right _ (.head _)) k hk
    · rintro ⟨h, hf⟩
      refine ⟨h.wild, fun p hp k hk => ?_⟩
      rcases List.mem_append.mp hp with hp | hp
      · exact h.log p hp k hk
      · rw [List.mem_singleton.mp hp] at hk ⊢
        obtain ⟨pa', hpa, hm⟩ := hf k hk
        cases hpa
        exact hm

/-- `s'` is `s` after the pieces `l` -/
structure After (s s' : State) (l : List (Nat × List Byte)) : Prop where
  mem : s'.mem = putAll s.mem l
  entry : s'.entry = s.entry

theorem After.trans {s s' s'' : State} {l l' : List (Nat × List Byte)} (h : After s s' l) (h' : After s' s'' l') :
    After s s'' (l ++ l') :=
  ⟨by rw [h'.mem, h.mem, putAll_append], h'.entry.trans h.entry⟩

/-- A store that fits is the piece at the address that was meant. -/
theorem store_after {kvaddr : Option Nat} {bs : List Byte} {pa : Nat} (hf : Fits L kvaddr bs)
    (hpa : ∀ a, kvaddr = some a → a = pa) : After s (s.store kvaddr bs) [(pa, bs)] := by
  cases kvaddr with
  | none =>
    have hbs : bs = [] := by
      cases bs with
      | nil => rfl
      | cons b bs =>
        obtain ⟨pa, hpa, -⟩ := hf 0 (Nat.zero_lt_succ _)
        cases hpa
    refine ⟨?_, rfl⟩
    funext a
    rw [putAll_apply, hbs, last_nil_cons]
    rfl
  | some a =>
    rw [← hpa a rfl]
    exact ⟨rfl, rfl⟩

/-! ## `load_pl` and its loop -/

theorem loadPl_ret (n : Nat) (ph : Pheader) : (loadPl L fs n ph s).2 = 0 ↔ Loaded L fs n ph := by
  unfold loadPl Loaded
  by_cases ht : ph.pType = PT_LOAD
  · rw [if_neg (not_not.mpr ht)]
    dsimp only
    by_cases h0 : L.ipaToPa ph.pPaddr = 0
    · rw [if_pos h0]
      exact iff_of_false (by simp [ERR_NOT_FOUND]) fun h => (h ht).1 h0
    · rw [if_neg h0]
      by_cases hr : (fs.read n ph.pOffset ph.pFilesz).1 = toSsize ph.pFilesz
      · rw [if_neg (not_not.mpr hr)]
        refine iff_of_true ?_ fun _ => ⟨h0, hr⟩
        split <;> rfl
      · rw [if_pos hr]
        exact iff_of_false (by simp [ ERR_IO]) fun h => hr (h ht).2
  · rw [if_pos ht]
    exact iff_of_true rfl fun h => absurd h ht

theorem zeroes_nil {ph : Pheader} (h : ¬0 < mZero ph) : zeroes ph = [] := by
  unfold zeroes
  rw [Int.toNat_of_nonpos (by omega)]
  rfl

theorem Fits.nil (kvaddr : Option Nat) : Fits L kvaddr [] := fun k hk => absurd hk (Nat.not_lt_zero k)

theorem loadPl_inside (n : Nat) (ph : Pheader) :
    (loadPl L fs n ph s).1.Inside L ↔ s.Inside L ∧ SegFits L fs n ph := by
  unfold loadPl SegFits
  by_cases ht : ph.pType = PT_LOAD
  · rw [if_neg (not_not.mpr ht)]
    dsimp only
    by_cases h0 : L.ipaToPa ph.pPaddr = 0
    · rw [if_pos h0]
      exact ⟨fun h => ⟨h, fun _ h1 => absurd h0 h1⟩, fun h => h.1⟩
    · rw [if_neg h0]
      by_cases hr : (fs.read n ph.pOffset ph.pFilesz).1 = toSsize ph.pFilesz
      · rw [if_neg (not_not.mpr hr)]
        have hz : ((if 0 < mZero ph then
            (((s.store (L.paddrToKvaddr (L.ipaToPa ph.pPaddr)) (fs.read n ph.pOffset ph.pFilesz).2).store
              (behind (L.paddrToKvaddr (L.ipaToPa ph.pPaddr)) (toSsize ph.pFilesz)) (zeroes ph)), (0 : Int))
            else (s.store (L.paddrToKvaddr (L.ipaToPa ph.pPaddr)) (fs.read n ph.pOffset ph.pFilesz).2, 0)).1.Inside L ↔
            (s.Inside L ∧ Fits L (L.paddrToKvaddr (L.ipaToPa ph.pPaddr)) (fs.read n ph.pOffset ph.pFilesz).2) ∧
              Fits L (behind (L.paddrToKvaddr (L.ipaToPa ph.pPaddr)) (toSsize ph.pFilesz)) (zeroes ph)) := by
          split
          · rw [store_inside, store_inside]
          · rename_i hz
            rw [store_inside, zeroes_nil hz]
            exact ⟨fun h => ⟨h, Fits.nil _⟩, fun h => h.1⟩
        rw [hz]
        exact ⟨fun h => ⟨h.1.1, fun _ _ => ⟨h.1.2, fun _ => h.2⟩⟩, fun h => ⟨⟨h.1, (h.2 ht h0).1⟩, (h.2 ht h0).2 hr⟩⟩
      · rw [if_pos hr, store_inside]
        exact ⟨fun h => ⟨h.1, fun _ _ => ⟨h.2, fun h1 => absurd h1 hr⟩⟩, fun h => ⟨h.1, (h.2 ht h0).1⟩⟩
  · rw [if_pos ht]
    exact ⟨fun h => ⟨h, fun h1 => absurd h1 ht⟩, fun h => h.1⟩

theorem kvaddr_eq {pa a : Nat} (h : L.paddrToKvaddr pa = some a) : a = pa := by
  unfold Loader.paddrToKvaddr at h
  split at h
  · cases h
    rfl
  · cases h

theorem loadPl_after (hs : fs.Serves file) {n : Nat} {ph : Pheader} (hl : Loaded L fs n ph)
    (hf : SegFits L fs n ph) : After s (loadPl L fs n ph s).1 (segPieces L fs file n ph) := by
  unfold loadPl segPieces
  by_cases ht : ph.pType = PT_LOAD
  · obtain ⟨h0, hr⟩ := hl ht
    obtain ⟨hf1, hf2⟩ := hf ht h0
    rw [if_neg (not_not.mpr ht), if_pos ht]
    dsimp only
    rw [if_neg h0, if_neg (not_not.mpr hr)]
    have hdata : (if ph.pFilesz < 2 ^ 63 then (file.drop ph.pOffset).take ph.pFilesz
        else (fs.read n ph.pOffset ph.pFilesz).2) = (fs.read n ph.pOffset ph.pFilesz).2 := by
      split
      · rename_i h63
        unfold toSsize at hr
        rw [if_pos h63] at hr
        exact (hs.full _ _ _ hr).2.symm
      · rfl
    rw [hdata]
    have h1 := store_after (s := s) hf1 fun a ha => kvaddr_eq ha
    have hb : ∀ a, behind (L.paddrToKvaddr (L.ipaToPa ph.pPaddr)) (toSsize ph.pFilesz) = some a →
        a = ((L.ipaToPa ph.pPaddr : Int) + toSsize ph.pFilesz).toNat := by
      intro a ha
      obtain ⟨b, hb, rfl⟩ := Option.map_eq_some_iff.mp ha
      rw [kvaddr_eq hb]
    split
    · exact h1.trans (store_after (hf2 hr) hb)
    · rename_i hz
      rw [zeroes_nil hz]
      exact ⟨h1.mem.trans (putAll_snoc_nil _ _ _).symm, h1.entry⟩
  · rw [if_pos ht, if_neg ht]
    exact ⟨rfl, rfl⟩

theorem loadLoop_spec (hs : fs.Serves file) (n : Nat) (hdrs : List Pheader) :
    ∀ {s : State}, ((loadLoop L fs n hdrs s).2 = 0 ↔ AllLoaded L fs n hdrs) ∧
      ((loadLoop L fs n hdrs s).1.Inside L ↔ s.Inside L ∧ SegsFit L fs n hdrs) ∧
      (AllLoaded L fs n hdrs → SegsFit L fs n hdrs →
        After s (loadLoop L fs n hdrs s).1 (imagePieces L fs file n hdrs)) := by
  induction hdrs generalizing n with
  | nil => exact ⟨iff_of_true rfl trivial, ⟨fun h => ⟨h, trivial⟩, fun h => h.1⟩, fun _ _ => ⟨rfl, rfl⟩⟩
  | cons ph rest ih =>
    intro s
    have hret : (loadPl L fs n ph s).2 = 0 ↔ Loaded L fs n ph := loadPl_ret n ph
    have hin : (loadPl L fs n ph s).1.Inside L ↔ s.Inside L ∧ SegFits L fs n ph := loadPl_inside n ph
    unfold loadLoop AllLoaded SegsFit imagePieces
    dsimp only
    by_cases hl : Loaded L fs n ph
    · rw [if_neg (not_not.mpr (hret.mpr hl))]
      obtain ⟨h1, h2, h3⟩ := ih (n + 1) (s := (loadPl L fs n ph s).1)
      refine ⟨h1.trans ⟨fun h => ⟨hl, h⟩, fun h => h.2⟩, ?_, ?_⟩
      · rw [h2, hin]
        exact ⟨fun h => ⟨h.1.1, h.1.2, fun _ => h.2⟩, fun h => ⟨⟨h.1, h.2.1⟩, h.2.2 hl⟩⟩
      · intro ha hf
        exact (loadPl_after hs hl hf.1).trans (h3 ha.2 (hf.2 hl))
    · rw [if_pos fun h => hl (hret.mp h)]
      refine ⟨iff_of_false (by simp [ ERR_IO]) fun h => hl h.1, ?_, fun h => absurd h.1 hl⟩
      rw [hin]
      exact ⟨fun h => ⟨h.1, h.2, fun h1 => absurd h1 hl⟩, fun h => ⟨h.1, h.2.1⟩⟩

/-! ## the two functions -/

theorem header_eq (hs : fs.Serves file) (h : (fs.read 0 0 64).1 = 64) :
    Eheader.ofBytes (fs.read 0 0 64).2 = Eheader.ofBytes file := by
  rw [(hs.full _ _ _ h).2, eheader_window]

theorem vmLoadElf_spec (hs : fs.Serves file) (malloc : Bool) :
    ((vmLoadElf L fs malloc s).2 = 0 ↔ ElfLoads L fs malloc file) ∧ ((vmLoadElf L fs malloc s).1.Inside L ↔
        s.Inside L ∧ (HeaderRead fs file → malloc = true → TableRead fs file → SegsFit L fs 2 (loaderHeaders file))) ∧
      (ElfLoads L fs malloc file → (vmLoadElf L fs malloc s).1.Inside L → (vmLoadElf L fs malloc s).1.mem =
            putAll s.mem (if malloc then imagePieces L fs file 2 (loaderHeaders file) else []) ∧
          (vmLoadElf L fs malloc s).1.entry = entryOf malloc file s.entry) := by
  unfold vmLoadElf ElfLoads
  by_cases h0 : fs.openRet = 0
  case neg =>
    rw [if_pos h0]
    exact ⟨iff_of_false h0 fun h => h0 h.1.1, ⟨fun h => ⟨h, fun h1 => absurd h1.1 h0⟩, fun h => h.1⟩,
      fun h => absurd h.1.1 h0⟩
  rw [if_neg (not_not.mpr h0)]
  dsimp only
  by_cases h1 : (fs.read 0 0 64).1 = 64
  case neg =>
    rw [if_pos h1]
    exact ⟨iff_of_false (by simp [ ERR_IO]) fun h => h1 h.1.2.1,
      ⟨fun h => ⟨h, fun h2 => absurd h2.2.1 h1⟩, fun h => h.1⟩, fun h => absurd h.1.2.1 h1⟩
  rw [if_neg (not_not.mpr h1), header_eq hs h1]
  by_cases h2 : verifyEheader (Eheader.ofBytes file) = 0
  case neg =>
    rw [if_pos h2]
    exact ⟨iff_of_false h2 fun h => h2 h.1.2.2, ⟨fun h => ⟨h, fun h3 => absurd h3.2.2 h2⟩, fun h => h.1⟩,
      fun h => absurd h.1.2.2 h2⟩
  rw [if_neg (not_not.mpr h2)]
  have hread : HeaderRead fs file := ⟨h0, h1, h2⟩
  cases malloc with
  | false =>
    rw [if_pos rfl]
    exact ⟨iff_of_true rfl ⟨hread, Bool.noConfusion⟩, ⟨fun h => ⟨h, fun _ => Bool.noConfusion⟩, fun h => h.1⟩,
      fun _ _ => ⟨rfl, rfl⟩⟩
  | true =>
    rw [if_neg (show ¬true = false from Bool.noConfusion)]
    by_cases h3 : TableRead fs file
    case neg =>
      have h4 := h3
      unfold TableRead at h4
      rw [if_pos h4]
      exact ⟨iff_of_false (by simp [ ERR_IO]) fun h => h3 (h.2 rfl).1,
        ⟨fun h => ⟨h, fun _ _ h4 => absurd h4 h3⟩, fun h => h.1⟩, fun h => absurd (h.2 rfl).1 h3⟩
    have hlen := h3
    unfold TableRead at hlen
    rw [if_neg (not_not.mpr hlen), pheaders_read hs h3]
    obtain ⟨h4, h5, h6⟩ := loadLoop_spec (L := L) hs 2 (loaderHeaders file) (s := s)
    by_cases h7 : AllLoaded L fs 2 (loaderHeaders file)
    · rw [if_neg (not_not.mpr (h4.mpr h7))]
      refine ⟨iff_of_true rfl ⟨hread, fun _ => ⟨h3, h7⟩⟩, ?_, ?_⟩
      · have hin : State.Inside L { (loadLoop L fs 2 (loaderHeaders file) s).1 with
            entry := (Eheader.ofBytes file).eEntry } ↔ (loadLoop L fs 2 (loaderHeaders file) s).1.Inside L :=
          ⟨fun h => ⟨h.wild, h.log⟩, fun h => ⟨h.wild, h.log⟩⟩
        rw [hin, h5]
        exact ⟨fun h => ⟨h.1, fun _ _ _ => h.2⟩, fun h => ⟨h.1, h.2 hread rfl h3⟩⟩
      · intro _ hin
        exact ⟨(h6 h7 (h5.mp ⟨hin.wild, hin.log⟩).2).mem, rfl⟩
    · rw [if_pos fun h => h7 (h4.mp h)]
      refine ⟨iff_of_false (by simp [ ERR_IO]) fun h => h7 (h.2 rfl).2, ?_, fun h => absurd (h.2 rfl).2 h7⟩
      rw [h5]
      exact ⟨fun h => ⟨h.1, fun _ _ _ => h.2⟩, fun h => ⟨h.1, h.2 hread rfl h3⟩⟩

theorem vmLoadFdt_spec (dtb : Fs) (hasFdt : Bool) : ((vmLoadFdt L dtb hasFdt s).2 = 0 ↔ FdtLoads dtb hasFdt) ∧
      ((vmLoadFdt L dtb hasFdt s).1.Inside L ↔ s.Inside L ∧ (hasFdt = true → dtb.openRet = 0 → dtb.statRet = 0 →
          Fits L (L.paddrToKvaddr (L.seg (calcFdtPos L s.entry)).pa) (dtb.read 0 0 dtb.statSize).2)) ∧
      (FdtLoads dtb hasFdt → (vmLoadFdt L dtb hasFdt s).1.Inside L →
        After s (vmLoadFdt L dtb hasFdt s).1 (fdtPieces L dtb hasFdt s.entry)) := by
  unfold vmLoadFdt FdtLoads fdtPieces
  cases hasFdt with
  | false =>
    rw [if_pos rfl]
    exact ⟨iff_of_true rfl Bool.noConfusion, ⟨fun h => ⟨h, Bool.noConfusion⟩, fun h => h.1⟩, fun _ _ => ⟨rfl, rfl⟩⟩
  | true =>
    rw [if_neg (show ¬true = false from Bool.noConfusion)]
    by_cases h0 : dtb.openRet = 0
    case neg =>
      rw [if_pos h0]
      exact ⟨iff_of_false h0 fun h => h0 (h rfl).1, ⟨fun h => ⟨h, fun _ h1 => absurd h1 h0⟩, fun h => h.1⟩,
        fun h => absurd (h rfl).1 h0⟩
    rw [if_neg (not_not.mpr h0)]
    dsimp only
    by_cases h1 : dtb.statRet = 0
    case neg =>
      rw [if_pos h1]
      exact ⟨iff_of_false h1 fun h => h1 (h rfl).2.1, ⟨fun h => ⟨h, fun _ _ h2 => absurd h2 h1⟩, fun h => h.1⟩,
        fun h => absurd (h rfl).2.1 h1⟩
    rw [if_neg (not_not.mpr h1)]
    have hin := store_inside (L := L) (s := s) (L.paddrToKvaddr (L.seg (calcFdtPos L s.entry)).pa)
      (dtb.read 0 0 dtb.statSize).2
    by_cases h2 : (dtb.read 0 0 dtb.statSize).1 = toSsize dtb.statSize
    · rw [if_neg (not_not.mpr h2)]
      refine ⟨iff_of_true rfl fun _ => ⟨h0, h1, h2⟩, ?_, ?_⟩
      · have hargs : State.Inside L { s.store (L.paddrToKvaddr (L.seg (calcFdtPos L s.entry)).pa)
            (dtb.read 0 0 dtb.statSize).2 with args := (L.seg (calcFdtPos L s.entry)).ipa } ↔
            (s.store (L.paddrToKvaddr (L.seg (calcFdtPos L s.entry)).pa) (dtb.read 0 0 dtb.statSize).2).Inside L :=
          ⟨fun h => ⟨h.wild, h.log⟩, fun h => ⟨h.wild, h.log⟩⟩
        rw [hargs, hin]
        exact ⟨fun h => ⟨h.1, fun _ _ _ => h.2⟩, fun h => ⟨h.1, h.2 rfl h0 h1⟩⟩
      · intro _ h
        have hf := (hin.mp ⟨h.wild, h.log⟩).2
        have ha := store_after (s := s) hf fun a ha => kvaddr_eq ha
        exact ⟨ha.mem, ha.entry⟩
    · rw [if_pos h2]
      refine ⟨iff_of_false (by simp [ ERR_IO]) fun h => h2 (h rfl).2.2, ?_, fun h => absurd (h rfl).2.2 h2⟩
      rw [hin]
      exact ⟨fun h => ⟨h.1, fun _ _ _ => h.2⟩, fun h => ⟨h.1, h.2 rfl h0 h1⟩⟩

/-! ## the load -/

theorem entryOf_eq {malloc : Bool} {entry : Nat} : entryOf malloc file entry = (Eheader.ofBytes file).eEntry ↔
    (malloc = false → entry = (Eheader.ofBytes file).eEntry) := by
  unfold entryOf
  cases malloc with
  | true => exact iff_of_true (if_pos rfl) Bool.noConfusion
  | false =>
    rw [if_neg Bool.noConfusion]
    exact ⟨fun h _ => h, fun h => h rfl⟩

theorem loadImage_ret (dtb : Fs) (hs : fs.Serves file) (malloc hasFdt : Bool) :
    (loadImage L fs dtb malloc hasFdt s).2 = 0 ↔ ElfLoads L fs malloc file ∧ FdtLoads dtb hasFdt := by
  obtain ⟨h1, -, -⟩ := vmLoadElf_spec (L := L) (s := s) hs malloc
  unfold loadImage
  dsimp only
  by_cases h : (vmLoadElf L fs malloc s).2 = 0
  · rw [if_neg (not_not.mpr h), (vmLoadFdt_spec dtb hasFdt).1]
    exact ⟨fun h2 => ⟨h1.mp h, h2⟩, fun h2 => h2.2⟩
  · rw [if_pos h]
    exact iff_of_false h fun h2 => h (h1.mpr h2.1)

theorem loadImage_inside (dtb : Fs) (hs : fs.Serves file) (malloc hasFdt : Bool) (hin : s.Inside L) :
    (loadImage L fs dtb malloc hasFdt s).1.Inside L ↔
      (HeaderRead fs file → malloc = true → TableRead fs file → SegsFit L fs 2 (loaderHeaders file)) ∧
      (ElfLoads L fs malloc file → hasFdt = true → dtb.openRet = 0 → dtb.statRet = 0 →
        Fits L (L.paddrToKvaddr (L.seg (calcFdtPos L (entryOf malloc file s.entry))).pa)
          (dtb.read 0 0 dtb.statSize).2) := by
  obtain ⟨h1, h2, h3⟩ := vmLoadElf_spec (L := L) (s := s) hs malloc
  rw [and_iff_right hin] at h2
  unfold loadImage
  dsimp only
  by_cases h : (vmLoadElf L fs malloc s).2 = 0
  · rw [if_neg (not_not.mpr h), (vmLoadFdt_spec dtb hasFdt).2.1]
    by_cases hi : (vmLoadElf L fs malloc s).1.Inside L
    · rw [and_iff_right hi, (h3 (h1.mp h) hi).2]
      exact ⟨fun h4 => ⟨h2.mp hi, fun _ => h4⟩, fun h4 => h4.2 (h1.mp h)⟩
    · exact iff_of_false (fun h4 => hi h4.1) fun h4 => hi (h2.mpr h4.1)
  · rw [if_pos h, h2]
    exact ⟨fun h4 => ⟨h4, fun h5 => absurd (h1.mpr h5) h⟩, fun h4 => h4.1⟩

/-- what a load that succeeds leaves -/
theorem loadImage_after (hs : fs.Serves file) {malloc hasFdt : Bool} (he : ElfLoads L fs malloc file)
    (hf : FdtLoads dtb hasFdt) (hin : (loadImage L fs dtb malloc hasFdt s).1.Inside L) :
    (loadImage L fs dtb malloc hasFdt s).1.mem = putAll s.mem (pieces L fs dtb malloc hasFdt file s.entry) ∧
      (loadImage L fs dtb malloc hasFdt s).1.entry = entryOf malloc file s.entry := by
  obtain ⟨h1, -, h3⟩ := vmLoadElf_spec (L := L) (s := s) hs malloc
  have heq : loadImage L fs dtb malloc hasFdt s = vmLoadFdt L dtb hasFdt (vmLoadElf L fs malloc s).1 := by
    unfold loadImage
    exact if_neg (not_not.mpr (h1.mpr he))
  rw [heq] at hin ⊢
  obtain ⟨-, h5, h6⟩ := vmLoadFdt_spec (L := L) (s := (vmLoadElf L fs malloc s).1) dtb hasFdt
  obtain ⟨h7, h8⟩ := h3 he (h5.mp hin).1
  have h9 := h6 hf hin
  rw [h8] at h9
  unfold pieces
  rw [putAll_append, ← h7]
  exact ⟨h9.mem, h9.entry.trans h8⟩

/-- a status is an error code, or 0 -/
theorem verifyEheader_nonpos (hdr : Eheader) : verifyEheader hdr ≤ 0 := by
  unfold verifyEheader
  split_ifs <;> decide

theorem loadImage_nonpos (malloc hasFdt : Bool) (h1 : fs.openRet ≤ 0) (h2 : dtb.openRet ≤ 0) (h3 : dtb.statRet ≤ 0) :
    (loadImage L fs dtb malloc hasFdt s).2 ≤ 0 := by
  have hio : ERR_IO ≤ 0 := by
    decide
  have helf : (vmLoadElf L fs malloc s).2 ≤ 0 := by
    unfold vmLoadElf
    dsimp only
    split_ifs
    · exact h1
    · exact hio
    · exact verifyEheader_nonpos _
    · exact le_refl 0
    · exact hio
    · exact hio
    · exact le_refl 0
  have hfdt : (vmLoadFdt L dtb hasFdt (vmLoadElf L fs malloc s).1).2 ≤ 0 := by
    unfold vmLoadFdt
    dsimp only
    split_ifs
    · exact le_refl 0
    · exact h2
    · exact h3
    · exact hio
    · exact le_refl 0
  unfold loadImage
  dsimp only
  split
  · exact helf
  · exact hfdt

/-- the guest is told where the device tree is -/
theorem loadImage_args {malloc : Bool} (h : (loadImage L fs dtb malloc true s).2 = 0) :
    (loadImage L fs dtb malloc true s).1.args =
      (L.seg (calcFdtPos L (loadImage L fs dtb malloc true s).1.entry)).ipa := by
  unfold loadImage at h ⊢
  dsimp only at h ⊢
  by_cases h0 : (vmLoadElf L fs malloc s).2 = 0
  · rw [if_neg (not_not.mpr h0)] at h ⊢
    generalize (vmLoadElf L fs malloc s).1 = t at h ⊢
    obtain ⟨h1, h2, h3⟩ := (vmLoadFdt_spec (L := L) (s := t) dtb true).1.mp h rfl
    unfold vmLoadFdt
    rw [if_neg (show ¬true = false from Bool.noConfusion), if_neg (not_not.mpr h1)]
    dsimp only
    rw [if_neg (not_not.mpr h2), if_neg (not_not.mpr h3)]
    cases L.paddrToKvaddr (L.seg (calcFdtPos L t.entry)).pa with
    | none => rfl
    | some pa => rfl
  · rw [if_pos h0] at h
    exact absurd h h0

/-- the device tree is the last piece stored -/
theorem fdt_stored {l : List (Nat × List Byte)} {entry k : Nat} {bs : List Byte} {b : Byte}
    (hs : dtb.Serves bs) (hf : FdtLoads dtb true) (hb : bs[k]? = some b) (m : Nat → Byte) :
    putAll m (l ++ fdtPieces L dtb true entry) ((L.seg (calcFdtPos L entry)).pa + k) = b := by
  obtain ⟨-, hstat, hr⟩ := hf rfl
  have hsize := hs.size hstat
  have hlen : toSsize dtb.statSize = (dtb.statSize : Nat) := by
    have := hs.bound
    unfold toSsize
    rw [if_pos (by omega)]
  rw [hlen] at hr
  have hbytes : (dtb.read 0 0 dtb.statSize).2 = bs := by
    rw [(hs.full _ _ _ hr).2, hsize, List.drop_zero, List.take_length]
  unfold fdtPieces
  rw [if_pos rfl, hbytes, putAll_append]
  show (cell ((L.seg (calcFdtPos L entry)).pa, bs) ((L.seg (calcFdtPos L entry)).pa + k)).getD _ = b
  rw [cell_add, hb]
  rfl

theorem loadImage_fdt {malloc : Bool} {bs : List Byte} {k : Nat} {b : Byte} (hs : fs.Serves file) (hd : dtb.Serves bs)
    (hin : (loadImage L fs dtb malloc true s).1.Inside L) (h : (loadImage L fs dtb malloc true s).2 = 0)
    (hb : bs[k]? = some b) : (loadImage L fs dtb malloc true s).1.mem
      ((L.seg (calcFdtPos L (loadImage L fs dtb malloc true s).1.entry)).pa + k) = b := by
  obtain ⟨he, hf⟩ := (loadImage_ret dtb hs malloc true).mp h
  obtain ⟨h1, h2⟩ := loadImage_after hs he hf hin
  rw [h1, h2]
  exact fdt_stored hd hf hb s.mem

/-- under the condition -/
theorem LoadWhen.ok {malloc hasFdt : Bool} (h : LoadWhen L fs dtb malloc hasFdt file s.entry) (hs : fs.Serves file)
    (hin0 : s.Inside L) : LoadOk L file (loadImage L fs dtb malloc hasFdt s) := by
  have hin := (loadImage_inside dtb hs malloc hasFdt hin0).mpr ⟨h.segs, h.fdt⟩
  refine ⟨hin, fun h0 => ?_⟩
  obtain ⟨he, hf⟩ := (loadImage_ret dtb hs malloc hasFdt).mp h0
  obtain ⟨h1, h2⟩ := loadImage_after hs he hf hin
  refine ⟨he.1.2.2, h2.trans (entryOf_eq.mpr (h.table he hf)), fun ph hph ht k hk => ?_⟩
  obtain ⟨a, ha, hl⟩ := h.image he hf ph hph ht k hk
  rw [h1, ha]
  exact congrArg some (putAll_const.mpr hl s.mem)

end

/-- a file system that serves one file -/
def fileFs (file : List Byte) : Fs where
  openRet := 0
  statRet := 0
  statSize := file.length
  read _ off len := if off + len ≤ file.length then (len, (file.drop off).take len) else ( ERR_IO, [])

theorem fileFs_serves {file : List Byte} (h : file.length < 2 ^ 63) : (fileFs file).Serves file where
  full n off len hr := by
    unfold fileFs at hr ⊢
    dsimp only at hr ⊢
    split at hr
    · rename_i hl
      exact ⟨hl, by rw [if_pos hl]⟩
    · have : ERR_IO = (len : Int) := hr
      unfold ERR_IO at this
      omega
  size _ := rfl
  bound := h

/-- an image with entry `0x1000` and one segment there: two bytes of the file and two zeroes -/
def tinyElf : List Byte :=
  [0x7f, 0x45, 0x4c, 0x46, 2, 1, 1, 0, 0, 0, 0, 0, 0, 0, 0, 0, 2, 0, 183, 0, 1, 0, 0, 0] ++
  [0, 0x10, 0, 0, 0, 0, 0, 0] ++ [64, 0, 0, 0, 0, 0, 0, 0] ++ [0, 0, 0, 0, 0, 0, 0, 0] ++ [0, 0, 0, 0] ++
  [64, 0, 56, 0, 1, 0, 0, 0, 0, 0, 0, 0] ++
  [1, 0, 0, 0, 5, 0, 0, 0] ++ [120, 0, 0, 0, 0, 0, 0, 0] ++ [0, 0x10, 0, 0, 0, 0, 0, 0] ++
  [0, 0x10, 0, 0, 0, 0, 0, 0] ++ [2, 0, 0, 0, 0, 0, 0, 0] ++ [4, 0, 0, 0, 0, 0, 0, 0] ++ [0, 0, 0, 0, 0, 0, 0, 0] ++
  [0xaa, 0xbb]

/-- its one program header, as the file has it and as the loader takes it -/
theorem tinyElf_headers :
    loaderHeaders tinyElf = [⟨1, 120, 0x1000, 2, 4⟩] ∧ imageHeaders tinyElf = [⟨1, 120, 0x1000, 2, 4⟩] ∧
      verifyEheader (Eheader.ofBytes tinyElf) = 0 ∧ ((fileFs tinyElf).read 0 0 64).1 = 64 ∧
        tinyElf.length < 2 ^ 63 := by
  decide +kernel

theorem tinyElf_serves : (fileFs tinyElf).Serves tinyElf := fileFs_serves tinyElf_headers.2.2.2.2

section
variable {L : Loader} {dtb : Fs} {hasFdt : Bool} {a : Nat}

end

end LkHv.Image
