import LkHv.Lib.Checked
import LkHv.Mem.Image

/-!
# The ELF loader (`lib/elf/elf.c`)

An image in memory is loaded by its headers, with the 32 bit or the 64 bit structures.  A fault is a copy that leaves
the image or the memory it goes to.

* `toread`, `readHookMemory`   `elf_read_hook_memory`, with its two tests one after the other;
* `elfLoad`            `elf_load`, with a log of what it stores;
* `ReadInside`         which reads stay in the image: an offset behind the end is not cut to nothing;
* `loadStations`       the steps of a load, with what each needs, in numbers of the headers;
* `WellFormed`, `LoadsRight`  what is asked of an image, and of the loader;
* `elf_bounds`         the reads and the loads that are right, exactly;
* `elf_bounds_fails`   program headers behind the end of the image.
-/

namespace LkHv.Elf
open Checked
open Image (Byte num toSsize PT_LOAD)

/-! ## the build -/

/-- which structures are built in, and the machine that is expected -/
structure Target where
  elf32 : Bool
  machine : Nat

namespace Target

/-- the bits of a `size_t` -/
def bits (t : Target) : Nat := if t.elf32 then 32 else 64

/-- `sizeof(elf_ehdr_t)` -/
def sizeofEhdr (t : Target) : Nat := if t.elf32 then 52 else 64

/-- `sizeof(elf_phdr_t)` -/
def sizeofPhdr (t : Target) : Nat := if t.elf32 then 32 else 56

/-- `ELFCLASS32` or `ELFCLASS64` -/
def elfClass (t : Target) : Byte := if t.elf32 then 1 else 2

/-- a `size_t` as an `ssize_t` -/
def ssize (t : Target) (n : Nat) : Int := if n < 2 ^ (t.bits - 1) then n else n - 2 ^ t.bits

end Target

/-- the fields of `elf_ehdr_t` that are read -/
structure Eheader where
  eIdent : List Byte
  eMachine : Nat
  eEntry : Nat
  ePhoff : Nat
  ePhentsize : Nat
  ePhnum : Nat

def Eheader.ofBytes (t : Target) (bs : List Byte) : Eheader :=
  if t.elf32 then ⟨bs.take 16, num bs 18 2, num bs 24 4, num bs 28 4, num bs 42 2, num bs 44 2⟩
  else ⟨bs.take 16, num bs 18 2, num bs 24 8, num bs 32 8, num bs 54 2, num bs 56 2⟩

/-- the fields of `elf_phdr_t` that are used -/
structure Pheader where
  pType : Nat
  pOffset : Nat
  pVaddr : Nat
  pFilesz : Nat
  pMemsz : Nat

/-- the program header at `off` -/
def Pheader.ofBytes (t : Target) (bs : List Byte) (off : Nat) : Pheader :=
  if t.elf32 then ⟨num bs off 4, num bs (off + 4) 4, num bs (off + 8) 4, num bs (off + 16) 4, num bs (off + 20) 4⟩
  else ⟨num bs off 4, num bs (off + 8) 8, num bs (off + 16) 8, num bs (off + 32) 8, num bs (off + 40) 8⟩

/-- `verify_eheader`, little-endian -/
def verifyEheader (t : Target) (hdr : Eheader) : Int :=
  if hdr.eIdent.take 4 ≠ [0x7f, 0x45, 0x4c, 0x46] then ERR_NOT_FOUND
  else if hdr.eIdent[4]? ≠ some t.elfClass then ERR_NOT_FOUND
  else if hdr.eIdent[5]? ≠ some 1 then ERR_NOT_FOUND
  else if hdr.eIdent[6]? ≠ some 1 then ERR_NOT_FOUND
  else if hdr.ePhoff = 0 then ERR_NOT_FOUND
  else if hdr.ePhentsize < t.sizeofPhdr then ERR_NOT_FOUND
  else if hdr.eMachine ≠ t.machine then ERR_NOT_FOUND
  else 0

/-! ## the source -/

/-- a copy leaves the image, or the memory it goes to -/
inductive Fault
  | image
  | block
  deriving DecidableEq

/-- ends with a result, or with a code -/
abbrev Load := Checked Fault Int

/-- an image in memory; its length is a `size_t` -/
structure MemImage (t : Target) where
  bytes : List Byte
  lt : bytes.length < 2 ^ t.bits

/-- `toread`, as a `size_t` -/
def toread (t : Target) (size offset len : Nat) : Nat :=
  let toread := if size ≤ offset then 0 else len
  if size ≤ (offset + len) % 2 ^ 64 then (2 ^ 64 + size - offset) % 2 ^ 64 % 2 ^ t.bits else toread

/-- `elf_read_hook_memory`, to `room` bytes -/
def readHookMemory (t : Target) (img : MemImage t) (room offset len : Nat) : Load (Int × List Byte) :=
  let n := toread t img.bytes.length offset len
  if n ≠ 0 ∧ img.bytes.length < offset + n then fault .image
  else if room < n then fault .block
  else pure (t.ssize n, (img.bytes.drop offset).take n)

/-- a read, and the test behind it -/
def readAll (t : Target) (img : MemImage t) (room offset len : Nat) (err : Int → Int) : Load (List Byte) := do
  let r ← readHookMemory t img room offset len
  returnIf (r.1 < t.ssize len) (err r.1)
  pure r.2

/-- `mem_alloc_hook`: number, address and length; an error or not, and an address -/
abbrev Hook := Nat → Nat → Nat → Int × Nat

/-- where a segment goes, and how many bytes were obtained there -/
def place (hook : Option Hook) (loadCount : Nat) (ph : Pheader) : Load (Nat × Nat) :=
  match hook with
  | none => pure (ph.pVaddr, 0)
  | some h => do
    returnIf ((h loadCount ph.pVaddr ph.pMemsz).1 < 0) (h loadCount ph.pVaddr ph.pMemsz).1
    pure ((h loadCount ph.pVaddr ph.pMemsz).2, ph.pMemsz)

def tozero (t : Target) (ph : Pheader) : Nat := (2 ^ t.bits + ph.pMemsz - ph.pFilesz) % 2 ^ t.bits

/-- the rest of a segment is cleared -/
def clear (t : Target) (ph : Pheader) (ptr room : Nat) : Load (List (Nat × List Byte)) :=
  if tozero t ph = 0 then pure []
  else if room < ph.pFilesz + tozero t ph then fault .block
  else pure [((ptr + ph.pFilesz) % 2 ^ t.bits, List.replicate (tozero t ph) 0)]

/-- a `PT_LOAD` segment -/
def loadSegment (t : Target) (img : MemImage t) (hook : Option Hook) (loadCount : Nat) (ph : Pheader) :
    Load (List (Nat × List Byte)) := do
  let p ← place hook loadCount ph
  let bs ← readAll t img p.2 ph.pOffset ph.pFilesz fun r => if r < 0 then r else ERR_IO
  let z ← clear t ph p.1 p.2
  pure ((p.1, bs) :: z)

/-- the loop of `elf_load` -/
def loadSegments (t : Target) (img : MemImage t) (hook : Option Hook) :
    Nat → List Pheader → Load (List (Nat × List Byte))
  | _, [] => pure []
  | loadCount, ph :: rest =>
    if ph.pType = PT_LOAD then do
      let a ← loadSegment t img hook loadCount ph
      let b ← loadSegments t img hook (loadCount + 1) rest
      pure (a ++ b)
    else loadSegments t img hook loadCount rest

/-- `handle->pheaders` -/
def pheaders (t : Target) (tab : List Byte) (phnum : Nat) : List Pheader :=
  (List.range phnum).map fun i => Pheader.ofBytes t tab (t.sizeofPhdr * i)

/-- `elf_load` of an image in memory, where `calloc` may fail: the entry point, and what was stored -/
def elfLoad (t : Target) (img : MemImage t) (calloc : Bool) (hook : Option Hook) :
    Load (Nat × List (Nat × List Byte)) := do
  let bs ← readAll t img t.sizeofEhdr 0 t.sizeofEhdr fun _ => ERR_NOT_FOUND
  let hdr := Eheader.ofBytes t bs
  returnIf (verifyEheader t hdr ≠ 0) ERR_NOT_FOUND
  returnIf (16 < hdr.ePhnum ∨ hdr.ePhentsize ≠ t.sizeofPhdr) ERR_NO_MEMORY
  returnIf (calloc = false) ERR_NO_MEMORY
  let tab ← readAll t img (hdr.ePhnum * hdr.ePhentsize) hdr.ePhoff (hdr.ePhnum * hdr.ePhentsize) fun _ => ERR_NO_MEMORY
  let log ← loadSegments t img hook 0 (pheaders t tab hdr.ePhnum)
  pure (hdr.eEntry, log)

/-! ## what is asked -/

def header (t : Target) (img : MemImage t) : Eheader := Eheader.ofBytes t img.bytes

/-- the program headers of an image -/
def imageHeaders (t : Target) (img : MemImage t) : List Pheader :=
  (List.range (header t img).ePhnum).map fun i =>
    Pheader.ofBytes t img.bytes ((header t img).ePhoff + (header t img).ePhentsize * i)

/-- the file part of a segment is in the image, and in the segment -/
structure SegmentFormed (size : Nat) (ph : Pheader) : Prop where
  file : ph.pOffset + ph.pFilesz ≤ size
  mem : ph.pFilesz ≤ ph.pMemsz

/-- an image that is not malformed -/
structure WellFormed (t : Target) (img : MemImage t) : Prop where
  ehdr : t.sizeofEhdr ≤ img.bytes.length
  verified : verifyEheader t (header t img) = 0
  table : (header t img).ePhoff + (header t img).ePhnum * (header t img).ePhentsize ≤ img.bytes.length
  segments : ∀ ph ∈ imageHeaders t img, ph.pType = PT_LOAD → SegmentFormed img.bytes.length ph

/-- a read of any length to memory of that length copies bytes of the image -/
def ReadsInside (t : Target) (img : MemImage t) (offset len : BitVec t.bits) : Prop :=
  toread t img.bytes.length offset.toNat len.toNat ≠ 0 →
    offset.toNat + toread t img.bytes.length offset.toNat len.toNat ≤ img.bytes.length

/-- a load stays in the image and in the memory it got, and a malformed image is an error -/
structure LoadsRight (t : Target) (img : MemImage t) (calloc : Bool) (hook : Option Hook) : Prop where
  inside : NoFault (elfLoad t img calloc hook)
  refused : ∀ r, Returns (elfLoad t img calloc hook) r → WellFormed t img

/-! ## the condition -/

/-- the read starts in the image and does not wrap, or starts at its end, or wraps to a place in it -/
def ReadInside (size offset len : Nat) : Prop :=
  offset < size ∧ offset + len < 2 ^ 64 ∨ offset = size ∨
    size < offset ∧ 2 ^ 64 ≤ offset + len ∧ offset + len < 2 ^ 64 + size

/-- the read is full, or the length counts as a negative number and what there is does not -/
def TakenFull (t : Target) (size offset len : Nat) : Prop :=
  offset + len ≤ size ∨ 2 ^ (t.bits - 1) ≤ len ∧ size - offset < 2 ^ (t.bits - 1)

/-- a read of `len` bytes to `room` bytes -/
def readStation (t : Target) (size room offset len : Nat) : Station :=
  ⟨ReadInside size offset len ∧ min len (size - offset) ≤ room, TakenFull t size offset len⟩

/-- the bytes that the hook hands out for a segment -/
def roomOf (hook : Option Hook) (ph : Pheader) : Nat :=
  match hook with
  | none => 0
  | some _ => ph.pMemsz

/-- the hook does not refuse -/
def Granted (hook : Option Hook) (loadCount : Nat) (ph : Pheader) : Prop :=
  ∀ h, hook = some h → 0 ≤ (h loadCount ph.pVaddr ph.pMemsz).1

/-- the steps of one segment: it is placed, read and cleared -/
def segmentStations (t : Target) (size : Nat) (hook : Option Hook) (loadCount : Nat) (ph : Pheader) : List Station :=
  [.check (Granted hook loadCount ph), readStation t size (roomOf hook ph) ph.pOffset ph.pFilesz,
    ⟨ph.pFilesz = ph.pMemsz ∨ ph.pFilesz ≤ ph.pMemsz ∧ hook.isSome, True⟩]

def segmentsStations (t : Target) (size : Nat) (hook : Option Hook) : Nat → List Pheader → List Station
  | _, [] => []
  | loadCount, ph :: rest =>
    if ph.pType = PT_LOAD then
      segmentStations t size hook loadCount ph ++ segmentsStations t size hook (loadCount + 1) rest
    else segmentsStations t size hook loadCount rest

/-- the steps of a load -/
def loadStations (t : Target) (img : MemImage t) (calloc : Bool) (hook : Option Hook) : List Station :=
  let hdr := header t img
  [.check (t.sizeofEhdr ≤ img.bytes.length), .check (verifyEheader t hdr = 0),
    .check (hdr.ePhnum ≤ 16 ∧ hdr.ePhentsize = t.sizeofPhdr), .check (calloc = true),
    ⟨ReadInside img.bytes.length hdr.ePhoff (hdr.ePhnum * hdr.ePhentsize),
      hdr.ePhoff + hdr.ePhnum * hdr.ePhentsize ≤ img.bytes.length⟩] ++
    segmentsStations t img.bytes.length hook 0 (imageHeaders t img)

/-- The condition of a load: no step that it comes to leaves the image or the memory, and if it passes all, no
segment with a length that counts as negative runs past the end. -/
def LoadsWhen (t : Target) (img : MemImage t) (calloc : Bool) (hook : Option Hook) : Prop :=
  Safe (loadStations t img calloc hook) ∧
    (Passed (loadStations t img calloc hook) → ∀ ph ∈ imageHeaders t img, ph.pType = PT_LOAD →
      2 ^ (t.bits - 1) ≤ ph.pFilesz → ph.pOffset + ph.pFilesz ≤ img.bytes.length)

/-! ## one read -/

section
variable {t : Target} {img : MemImage t} {size room offset len : Nat} {hook : Option Hook} {ph : Pheader}

theorem bits_cases (t : Target) : t.bits = 32 ∨ t.bits = 64 := by
  unfold Target.bits
  split
  · exact .inl rfl
  · exact .inr rfl

/-- a read that starts and ends right takes what there is -/
theorem toread_of_inside (hs : size < 2 ^ t.bits) (h : ReadInside size offset len) :
    toread t size offset len = min len (size - offset) := by
  unfold ReadInside at h
  unfold toread
  dsimp only
  rcases bits_cases t with hb | hb
  · rw [hb] at hs ⊢
    split
    · lia
    · split <;> lia
  · rw [hb] at hs ⊢
    split
    · lia
    · split <;> lia

/-- any other leaves the image -/
theorem toread_of_outside (hs : size < 2 ^ t.bits) (ho : offset < 2 ^ t.bits) (hl : len < 2 ^ t.bits)
    (h : ¬ ReadInside size offset len) : toread t size offset len ≠ 0 ∧ size < offset + toread t size offset len := by
  unfold ReadInside at h
  unfold toread
  dsimp only
  rcases bits_cases t with hb | hb
  · rw [hb] at hs ho hl ⊢
    split
    · omega
    · split <;> omega
  · rw [hb] at hs ho hl ⊢
    split
    · omega
    · split <;> omega

/-- **A read** copies bytes of the image exactly if it starts and ends right. -/
theorem toread_inside_iff (hs : size < 2 ^ t.bits) (ho : offset < 2 ^ t.bits) (hl : len < 2 ^ t.bits) :
    (toread t size offset len ≠ 0 → offset + toread t size offset len ≤ size) ↔ ReadInside size offset len := by
  constructor
  · intro h
    by_contra hn
    obtain ⟨h0, h1⟩ := toread_of_outside hs ho hl hn
    have := h h0
    omega
  · intro h h0
    rw [toread_of_inside hs h] at h0 ⊢
    omega

/-- what compares as less, among `ssize_t`s -/
theorem ssize_lt {n : Nat} (hn : n ≤ len) (hl : len < 2 ^ t.bits) :
    ¬ t.ssize n < t.ssize len ↔ n = len ∨ 2 ^ (t.bits - 1) ≤ len ∧ n < 2 ^ (t.bits - 1) := by
  unfold Target.ssize
  rcases bits_cases t with hb | hb
  · rw [hb] at hl ⊢
    split <;> split <;> omega
  · rw [hb] at hl ⊢
    split <;> split <;> omega

/-- the test behind a read that stays in the image -/
theorem takenFull_iff (h : ReadInside size offset len) (ho : offset < 2 ^ t.bits) (hl : len < 2 ^ t.bits) :
    ¬ t.ssize (min len (size - offset)) < t.ssize len ↔ TakenFull t size offset len := by
  have ho64 : offset < 2 ^ 64 := by
    rcases bits_cases t with hb | hb
    · rw [hb] at ho
      omega
    · rw [hb] at ho
      exact ho
  rw [ssize_lt (Nat.min_le_left _ _) hl]
  unfold ReadInside at h
  unfold TakenFull
  rcases Nat.le_total len (size - offset) with hm | hm
  · rw [Nat.min_eq_left hm]
    omega
  · rw [Nat.min_eq_right hm]
    omega

theorem readHookMemory_returns (h : ReadInside img.bytes.length offset len)
    (hr : min len (img.bytes.length - offset) ≤ room) : Returns (readHookMemory t img room offset len)
      (t.ssize (min len (img.bytes.length - offset)), (img.bytes.drop offset).take len) := by
  have htake : (img.bytes.drop offset).take (min len (img.bytes.length - offset)) = (img.bytes.drop offset).take len := by
    rw [← List.length_drop, ← List.take_eq_take_min]
  unfold readHookMemory
  dsimp only
  rw [toread_of_inside img.lt h, if_neg (by unfold ReadInside at h; omega), if_neg (by omega), htake]
  exact returns_pure.mpr rfl

theorem readHookMemory_noFault (ho : offset < 2 ^ t.bits) (hl : len < 2 ^ t.bits) :
    NoFault (readHookMemory t img room offset len) ↔
      ReadInside img.bytes.length offset len ∧ min len (img.bytes.length - offset) ≤ room := by
  constructor
  · intro h
    by_cases hin : ReadInside img.bytes.length offset len
    · refine ⟨hin, ?_⟩
      by_contra hr
      unfold readHookMemory at h
      dsimp only at h
      rw [toread_of_inside img.lt hin, if_neg (by unfold ReadInside at hin; omega), if_pos (by omega)] at h
      exact not_noFault_fault h
    · obtain ⟨h0, h1⟩ := toread_of_outside img.lt ho hl hin
      unfold readHookMemory at h
      dsimp only at h
      rw [if_pos ⟨h0, h1⟩] at h
      exact absurd h not_noFault_fault
  · rintro ⟨hin, hr⟩
    exact (readHookMemory_returns hin hr).noFault

/-- what a read that is taken as full returns -/
theorem readAll_returns {err : Int → Int} (ho : offset < 2 ^ t.bits) (hl : len < 2 ^ t.bits) {bs : List Byte}
    (h : Returns (readAll t img room offset len err) bs) :
    (ReadInside img.bytes.length offset len ∧ min len (img.bytes.length - offset) ≤ room) ∧
      TakenFull t img.bytes.length offset len ∧ bs = (img.bytes.drop offset).take len := by
  unfold readAll at h
  obtain ⟨r, hread, h⟩ := returns_bind.mp h
  have hfits := (readHookMemory_noFault ho hl).mp hread.noFault
  have heq := (readHookMemory_returns hfits.1 hfits.2).symm.trans hread
  cases heq
  obtain ⟨_, hfull, h⟩ := returns_bind.mp h
  exact ⟨hfits, (takenFull_iff hfits.1 ho hl).mp (returns_returnIf.mp hfull), (returns_pure.mp h).symm⟩

theorem readAll_walks {err : Int → Int} (ho : offset < 2 ^ t.bits) (hl : len < 2 ^ t.bits) :
    Walks (readAll t img room offset len err) [readStation t img.bytes.length room offset len] := by
  have hread : NoFault (readAll t img room offset len err) ↔
      ReadInside img.bytes.length offset len ∧ min len (img.bytes.length - offset) ≤ room := by
    unfold readAll
    rw [noFault_bind, readHookMemory_noFault ho hl]
    refine ⟨fun h => h.1, fun h => ⟨h, fun r _ => ?_⟩⟩
    exact ((walks_returnIf _ _).map _).safe.mpr ⟨trivial, fun _ => trivial⟩
  refine walks_one hread ⟨?_, ?_⟩
  · rintro ⟨bs, h⟩
    obtain ⟨h1, h2, -⟩ := readAll_returns ho hl h
    exact ⟨h1, h2⟩
  · rintro ⟨⟨hin, hr⟩, hfull⟩
    refine ⟨_, returns_bind.mpr ⟨_, readHookMemory_returns hin hr, returns_bind.mpr ⟨⟨⟩, ?_, returns_pure.mpr rfl⟩⟩⟩
    exact returns_returnIf.mpr ((takenFull_iff hin ho hl).mpr hfull)

/-! ## one segment -/

theorem place_walks (hook : Option Hook) (loadCount : Nat) (ph : Pheader) :
    Walks (place hook loadCount ph) [.check (Granted hook loadCount ph)] := by
  unfold place Granted
  cases hook with
  | none =>
    refine walks_one ⟨fun _ => trivial, fun _ => ⟨_, rfl⟩⟩ ⟨fun _ => ⟨trivial, ?_⟩, fun _ => ⟨_, rfl⟩⟩
    intro h hh
    cases hh
  | some h =>
    refine Walks.map (walks_returnIf_iff ?_ _) _
    rw [not_lt]
    constructor
    · intro h0 k hk
      cases hk
      exact h0
    · intro h0
      exact h0 h rfl

theorem place_room {loadCount : Nat} {p : Nat × Nat} (h : Returns (place hook loadCount ph) p) :
    p.2 = roomOf hook ph := by
  unfold place at h
  unfold roomOf
  cases hook with
  | none =>
    rw [← returns_pure.mp h]
  | some k =>
    obtain ⟨-, -, h⟩ := returns_bind.mp h
    rw [← returns_pure.mp h]

/-- the fields are numbers of the build -/
structure FieldsLt (t : Target) (ph : Pheader) : Prop where
  offset : ph.pOffset < 2 ^ t.bits
  filesz : ph.pFilesz < 2 ^ t.bits
  memsz : ph.pMemsz < 2 ^ t.bits

theorem clear_walks (hf : FieldsLt t ph) (hook : Option Hook) (ptr : Nat) : Walks (clear t ph ptr (roomOf hook ph))
      [⟨ph.pFilesz = ph.pMemsz ∨ ph.pFilesz ≤ ph.pMemsz ∧ hook.isSome, True⟩] := by
  have h1 := hf.filesz
  have h2 := hf.memsz
  have hzero : tozero t ph = 0 ↔ ph.pFilesz = ph.pMemsz := by
    unfold tozero
    rcases bits_cases t with hb | hb
    · rw [hb] at h1 h2 ⊢
      omega
    · rw [hb] at h1 h2 ⊢
      omega
  have hroom : ph.pMemsz < ph.pFilesz + tozero t ph ↔ ph.pMemsz < ph.pFilesz := by
    unfold tozero
    rcases bits_cases t with hb | hb
    · rw [hb] at h1 h2 ⊢
      omega
    · rw [hb] at h1 h2 ⊢
      omega
  unfold clear
  by_cases h0 : tozero t ph = 0
  · rw [if_pos h0]
    exact walks_fits ⟨fun _ => .inl (hzero.mp h0), fun _ => ⟨_, rfl⟩⟩ fun _ => ⟨_, rfl⟩
  rw [if_neg h0]
  have hne : ph.pFilesz ≠ ph.pMemsz := fun e => h0 (hzero.mpr e)
  cases hook with
  | none =>
    have hover : roomOf none ph < ph.pFilesz + tozero t ph :=
      show 0 < ph.pFilesz + tozero t ph by omega
    rw [if_pos hover]
    refine walks_fits ⟨fun h => absurd h not_noFault_fault, fun h => ?_⟩ fun h => ?_
    · exact absurd h (by simp [hne])
    · exact absurd h (by simp [hne])
  | some k =>
    by_cases hle : ph.pFilesz ≤ ph.pMemsz
    · have hno : ¬ roomOf (some k) ph < ph.pFilesz + tozero t ph := fun h => absurd (hroom.mp h) (not_lt.mpr hle)
      rw [if_neg hno]
      exact walks_fits ⟨fun _ => .inr ⟨hle, rfl⟩, fun _ => ⟨_, rfl⟩⟩ fun _ => ⟨_, rfl⟩
    · have hover : roomOf (some k) ph < ph.pFilesz + tozero t ph := hroom.mpr (not_le.mp hle)
      rw [if_pos hover]
      refine walks_fits ⟨fun h => absurd h not_noFault_fault, fun h => ?_⟩ fun h => ?_
      · exact absurd h (by simp [hne, hle])
      · exact absurd h (by simp [hne, hle])

theorem loadSegment_walks (hf : FieldsLt t ph) (img : MemImage t) (hook : Option Hook) (loadCount : Nat) :
    Walks (loadSegment t img hook loadCount ph) (segmentStations t img.bytes.length hook loadCount ph) := by
  unfold loadSegment segmentStations
  refine (place_walks hook loadCount ph).cons fun p hp => ?_
  rw [place_room hp]
  refine (readAll_walks hf.offset hf.filesz).cons fun bs _ => ?_
  exact (clear_walks hf hook p.1).map _

theorem loadSegments_walks {hdrs : List Pheader} (hf : ∀ ph ∈ hdrs, FieldsLt t ph) (img : MemImage t)
    (hook : Option Hook) (loadCount : Nat) :
    Walks (loadSegments t img hook loadCount hdrs) (segmentsStations t img.bytes.length hook loadCount hdrs) := by
  induction hdrs generalizing loadCount with
  | nil => exact .pure []
  | cons ph rest ih =>
    have hrest := ih fun q hq => hf q (.tail _ hq)
    unfold loadSegments segmentsStations
    split
    · refine (loadSegment_walks (hf ph (.head _)) img hook loadCount).bind fun a _ => ?_
      exact (hrest (loadCount + 1)).map _
    · exact hrest loadCount

/-! ## the whole load -/

theorem le_lt (bs : List Byte) : Image.le bs < 256 ^ bs.length := by
  induction bs with
  | nil => exact Nat.one_pos
  | cons b bs ih =>
    have hb : b.toNat < 256 := b.isLt
    show b.toNat + 256 * Image.le bs < 256 ^ (bs.length + 1)
    rw [Nat.pow_succ]
    omega

theorem num_lt (bs : List Byte) (off len : Nat) : num bs off len < 256 ^ len := by
  refine (le_lt _).trans_le (Nat.pow_le_pow_right (by decide) ?_)
  rw [List.length_take]
  exact Nat.min_le_left _ _

theorem pheader_fields (t : Target) (bs : List Byte) (off : Nat) : FieldsLt t (Pheader.ofBytes t bs off) := by
  unfold Pheader.ofBytes
  cases he : t.elf32 with
  | true =>
    have hb : t.bits = 32 := by
      unfold Target.bits
      rw [he]
      rfl
    rw [if_pos rfl]
    refine ⟨?_, ?_, ?_⟩ <;> rw [hb] <;> exact num_lt _ _ 4
  | false =>
    have hb : t.bits = 64 := by
      unfold Target.bits
      rw [he]
      rfl
    rw [if_neg Bool.false_ne_true]
    refine ⟨?_, ?_, ?_⟩ <;> rw [hb] <;> exact num_lt _ _ 8

theorem eheader_phoff (t : Target) (bs : List Byte) : (Eheader.ofBytes t bs).ePhoff < 2 ^ t.bits := by
  unfold Eheader.ofBytes Target.bits
  split
  · exact num_lt _ _ 4
  · exact num_lt _ _ 8

theorem eheader_window (t : Target) (bs : List Byte) :
    Eheader.ofBytes t ((bs.drop 0).take t.sizeofEhdr) = Eheader.ofBytes t bs := by
  have hident : ∀ n, 16 ≤ n → ((bs.drop 0).take n).take 16 = bs.take 16 := by
    intro n hn
    rw [List.take_take, Nat.min_eq_left hn, List.drop_zero]
  unfold Eheader.ofBytes Target.sizeofEhdr
  split
  · rw [hident 52 (by decide), Image.num_window (by decide), Image.num_window (by decide), Image.num_window (by decide),
      Image.num_window (by decide), Image.num_window (by decide)]
  · rw [hident 64 (by decide), Image.num_window (by decide), Image.num_window (by decide), Image.num_window (by decide),
      Image.num_window (by decide), Image.num_window (by decide)]

theorem pheader_window (t : Target) {bs : List Byte} {d m o : Nat} (h : o + t.sizeofPhdr ≤ m) :
    Pheader.ofBytes t ((bs.drop d).take m) o = Pheader.ofBytes t bs (d + o) := by
  unfold Target.sizeofPhdr at h
  unfold Pheader.ofBytes
  split
  · rename_i he
    rw [if_pos he] at h
    rw [Image.num_window (by lia), Image.num_window (by lia), Image.num_window (by lia),
      Image.num_window (by lia), Image.num_window (by lia)]
    simp only [Nat.add_assoc]
  · rename_i he
    rw [if_neg he] at h
    rw [Image.num_window (by lia), Image.num_window (by lia), Image.num_window (by lia),
      Image.num_window (by lia), Image.num_window (by lia)]
    simp only [Nat.add_assoc]

theorem sizeof_small (t : Target) : t.sizeofEhdr ≤ 64 ∧ t.sizeofPhdr ≤ 56 ∧ 0 < t.sizeofPhdr := by
  unfold Target.sizeofEhdr Target.sizeofPhdr
  split
  · decide
  · decide

/-- a short read is full, or an error -/
theorem takenFull_small (h : len < 2 ^ 31) : TakenFull t size offset len ↔ offset + len ≤ size := by
  unfold TakenFull
  rcases bits_cases t with hb | hb
  · rw [hb]
    omega
  · rw [hb]
    omega

/-- a short read to memory of its length -/
theorem readAll_small {err : Int → Int} (ho : offset < 2 ^ t.bits) (hl : len < 2 ^ 31) :
    Walks (readAll t img len offset len err)
      [⟨ReadInside img.bytes.length offset len, offset + len ≤ img.bytes.length⟩] := by
  have hl' : len < 2 ^ t.bits := by
    rcases bits_cases t with hb | hb
    · rw [hb]
      omega
    · rw [hb]
      omega
  have h : Walks (readAll t img len offset len err) [readStation t img.bytes.length len offset len] :=
    readAll_walks ho hl'
  unfold readStation at h
  rw [takenFull_small hl] at h
  refine h.congr ?_ ?_
  · simp only [Safe, Nat.min_le_left, and_true]
  · simp only [passed_cons, Nat.min_le_left, and_true]

theorem elfLoad_walks (t : Target) (img : MemImage t) (calloc : Bool) (hook : Option Hook) :
    Walks (elfLoad t img calloc hook) (loadStations t img calloc hook) := by
  obtain ⟨h1, h2, -⟩ := sizeof_small t
  have hpos : 0 < 2 ^ t.bits := Nat.pow_pos (by decide)
  have hehdr : t.sizeofEhdr < 2 ^ t.bits := by
    rcases bits_cases t with hb | hb
    · rw [hb]
      lia
    · rw [hb]
      lia
  unfold elfLoad loadStations
  dsimp only
  have hread : Walks (readAll t img t.sizeofEhdr 0 t.sizeofEhdr fun _ => ERR_NOT_FOUND)
      [⟨ReadInside img.bytes.length 0 t.sizeofEhdr, 0 + t.sizeofEhdr ≤ img.bytes.length⟩] :=
    readAll_small hpos (by lia)
  have hinside : ReadInside img.bytes.length 0 t.sizeofEhdr := by
    unfold ReadInside
    lia
  have hread' : Walks (readAll t img t.sizeofEhdr 0 t.sizeofEhdr fun _ => ERR_NOT_FOUND)
      [.check (t.sizeofEhdr ≤ img.bytes.length)] := by
    rw [Nat.zero_add] at hread
    refine hread.congr ?_ ?_
    · simp [Safe, Station.check, hinside]
    · simp [Passed, Station.check, hinside]
  refine hread'.cons fun bs hbs => ?_
  obtain ⟨-, -, rfl⟩ := readAll_returns hpos hehdr hbs
  rw [eheader_window, show Eheader.ofBytes t img.bytes = header t img from rfl]
  change Walks _ (_ :: _ :: _ :: _ :: segmentsStations t img.bytes.length hook 0 (imageHeaders t img))
  refine (walks_returnIf_iff (not_not (a := verifyEheader t (header t img) = 0)) _).cons fun _ _ => ?_
  have hcheck : ¬ (16 < (header t img).ePhnum ∨ (header t img).ePhentsize ≠ t.sizeofPhdr) ↔
      (header t img).ePhnum ≤ 16 ∧ (header t img).ePhentsize = t.sizeofPhdr := by
    rw [not_or, not_lt, not_not]
  refine (walks_returnIf_iff hcheck _).cons fun _ hc => ?_
  obtain ⟨hnum, hsize⟩ := hcheck.mp (returns_returnIf.mp hc)
  refine (walks_returnIf_iff (by simp) _).cons fun _ _ => ?_
  have hlen : (header t img).ePhnum * (header t img).ePhentsize ≤ 16 * 56 := Nat.mul_le_mul hnum (by lia)
  refine (readAll_small (eheader_phoff t img.bytes) (by lia)).cons fun tab htab => ?_
  have htable : pheaders t tab (header t img).ePhnum = imageHeaders t img := by
    obtain ⟨-, -, rfl⟩ := readAll_returns (eheader_phoff t img.bytes) (by
      rcases bits_cases t with hb | hb
      · rw [hb]
        lia
      · rw [hb]
        lia) htab
    unfold pheaders imageHeaders
    refine List.map_congr_left fun i hi => ?_
    rw [hsize]
    refine pheader_window t ?_
    have hi' := List.mem_range.mp hi
    have hle := Nat.mul_le_mul_right t.sizeofPhdr hi'
    rw [Nat.succ_mul] at hle
    rw [Nat.mul_comm]
    exact hle
  have hfields : ∀ ph ∈ imageHeaders t img, FieldsLt t ph := by
    intro ph hph
    obtain ⟨i, -, rfl⟩ := List.mem_map.mp hph
    exact pheader_fields t _ _
  have hsegs := (loadSegments_walks hfields img hook 0).map fun log => ((header t img).eEntry, log)
  rw [← htable] at hsegs ⊢
  exact hsegs

/-- what a segment that is loaded looks like -/
theorem passed_segments {loadCount : Nat} {hdrs : List Pheader}
    (h : Passed (segmentsStations t size hook loadCount hdrs)) :
    ∀ ph ∈ hdrs, ph.pType = PT_LOAD → TakenFull t size ph.pOffset ph.pFilesz ∧ ph.pFilesz ≤ ph.pMemsz := by
  induction hdrs generalizing loadCount with
  | nil => exact fun ph hph => absurd hph List.not_mem_nil
  | cons q rest ih =>
    intro ph hph ht
    unfold segmentsStations at h
    split at h
    · obtain ⟨hseg, hrest⟩ := passed_append.mp h
      rcases List.mem_cons.mp hph with rfl | hph
      · obtain ⟨-, hread⟩ := passed_cons.mp hseg
        obtain ⟨hfull, hclear⟩ := passed_cons.mp hread
        refine ⟨hfull.2, ?_⟩
        rcases (passed_cons.mp hclear).1.1 with e | e
        · exact e.le
        · exact e.1
      · exact ih hrest ph hph ht
    · rename_i hq
      rcases List.mem_cons.mp hph with rfl | hph
      · exact absurd ht hq
      · exact ih h ph hph ht

/-- an image that is loaded is formed well, but for lengths that count as negative -/
theorem wellFormed_iff {calloc : Bool} (h : Passed (loadStations t img calloc hook)) :
    WellFormed t img ↔ ∀ ph ∈ imageHeaders t img, ph.pType = PT_LOAD → 2 ^ (t.bits - 1) ≤ ph.pFilesz →
      ph.pOffset + ph.pFilesz ≤ img.bytes.length := by
  constructor
  · exact fun hw ph hph ht _ => (hw.segments ph hph ht).file
  intro hneg
  unfold loadStations at h
  obtain ⟨hfront, hsegs⟩ := passed_append.mp h
  obtain ⟨h1, hfront⟩ := passed_cons.mp hfront
  obtain ⟨h2, hfront⟩ := passed_cons.mp hfront
  obtain ⟨-, hfront⟩ := passed_cons.mp hfront
  obtain ⟨-, hfront⟩ := passed_cons.mp hfront
  obtain ⟨h3, -⟩ := passed_cons.mp hfront
  refine ⟨h1.2, h2.2, h3.2, fun ph hph ht => ?_⟩
  obtain ⟨hfull, hmem⟩ := passed_segments hsegs ph hph ht
  refine ⟨?_, hmem⟩
  rcases hfull with hf | ⟨hf, -⟩
  · exact hf
  · exact hneg ph hph ht hf

end

/-- **The ELF loader.**  A read copies bytes of the image exactly if it starts and ends right, and a load is right
exactly if its condition holds. -/
theorem elf_bounds (t : Target) (img : MemImage t) :
    (∀ offset len : BitVec t.bits,
      ReadsInside t img offset len ↔ ReadInside img.bytes.length offset.toNat len.toNat) ∧
    ∀ calloc hook, LoadsRight t img calloc hook ↔ LoadsWhen t img calloc hook := by
  refine ⟨fun offset len => toread_inside_iff img.lt offset.isLt len.isLt, fun calloc hook => ?_⟩
  have hw := elfLoad_walks t img calloc hook
  constructor
  · intro h
    refine ⟨hw.safe.mp h.inside, fun hp => ?_⟩
    obtain ⟨r, hr⟩ := hw.passed.mpr hp
    exact (wellFormed_iff hp).mp (h.refused r hr)
  · intro h
    refine ⟨hw.safe.mpr h.1, fun r hr => ?_⟩
    have hp := hw.passed.mp ⟨r, hr⟩
    exact (wellFormed_iff hp).mpr (h.2 hp)

/-! ## an image without its program headers -/

def arm64 : Target := ⟨false, 183⟩

/-- an ELF header, with one program header at 65 -/
def headerOnly : MemImage arm64 where
  bytes := [0x7f, 0x45, 0x4c, 0x46, 2, 1, 1, 0, 0, 0, 0, 0, 0, 0, 0, 0, 2, 0, 183, 0, 1, 0, 0, 0,
    0, 0, 0, 0, 0, 0, 0, 0, 65, 0, 0, 0, 0, 0, 0, 0, 0, 0, 0, 0, 0, 0, 0, 0, 0, 0, 0, 0, 64, 0, 56, 0, 1, 0,
    0, 0, 0, 0, 0, 0]
  lt := by decide

/-- **Program headers behind the end** are copied from there. -/
theorem elf_bounds_fails :
    ¬ ∀ t (img : MemImage t), (∀ offset len, ReadsInside t img offset len) ∧
      ∀ calloc hook, LoadsRight t img calloc hook := by
  intro h
  obtain ⟨r, hr⟩ := ((h arm64 headerOnly).2 true (some fun _ _ _ => (0, 0x1000))).inside
  have hrun : (elfLoad arm64 headerOnly true (some fun _ _ _ => (0, 0x1000))).run = .error .image := by
    decide
  rw [hrun] at hr
  cases hr

end LkHv.Elf
