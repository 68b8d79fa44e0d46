import LkHv.Bio.Subdev
import LkHv.Kernel.Bytes
import LkHv.Kernel.Word
import LkHv.Lib.Machine

/-!
# The partition table in memory (`lib/ptable/ptable.c`)

The entries of the table, the registered devices, and the calls that change them.  What the flash, the heap and the
commit of the table answer are arguments; a call is `none` where an assertion fails.

* `PtableEntry`, `BioDev`, `Ptable`   an entry, a device with its name, the bookkeeping with the registered devices;
* `ptablePublish`, `ptableReset`, `ptablePushEntry`   entries that come and go;
* `ptableAdjustRequest`, `ptableAllocate`, `ptableAllocateAt`   the allocator;
* `ptableScan`, `prepareCreate`, `prepareAdd`, `prepareRemove`, `ptableWrite`   a scan, and what the calls do up to the commit
  of the table and then;
* `PtableOp`, `ptableCall`, `ptableSys`   the calls and their machine.
-/

namespace LkHv
open Bio

def PTABLE_MAGIC : Nat := 0x31425450
def PTABLE_MIN_ENTRIES : Nat := 16
def MAX_FLASH_PTABLE_NAME_LEN : Nat := 12
/-- `sizeof(struct ptable_header)` -/
def ptableHeaderSize : Nat := 16
/-- `sizeof(struct ptable_entry)` -/
def ptableEntrySize : Nat := 32

/-- `"ptable"` -/
def PTABLE_PART_NAME : List UInt8 := [112, 116, 97, 98, 108, 101]

/-- `struct ptable_entry` -/
structure PtableEntry where
  offset : Nat
  length : Nat
  flags : Nat
  name : List UInt8
deriving DecidableEq

namespace PtableEntry

/-- the name, up to the byte 0 -/
def cname (e : PtableEntry) : List UInt8 := e.name.takeWhile (· ≠ 0)

/-- the byte behind the partition -/
def stop (e : PtableEntry) : Nat := e.offset + e.length

/-- the bytes of an entry -/
def encode (e : PtableEntry) : List UInt8 := bytes64 e.offset ++ (bytes64 e.length ++ (bytes32 e.flags ++ e.name))

def decode (b : List UInt8) : PtableEntry := ⟨u64 b 0, u64 b 8, u32 b 16, (b.drop 20).take MAX_FLASH_PTABLE_NAME_LEN⟩

end PtableEntry

/-- `struct ptable_header`, the checksum being any -/
def ptableHeader (crc generation totalLength : Nat) : List UInt8 :=
  bytes32 PTABLE_MAGIC ++ (bytes32 crc ++ (bytes32 generation ++ (bytes32 totalLength ++ [])))

/-- a registered device, with its name -/
structure BioDev where
  name : List UInt8
  dev : Dev

/-- `struct ptable_state`, and the registered devices: those that were before, and the partitions, in this order -/
structure Ptable where
  bdev : Option BioDev
  gen : Nat
  list : List PtableEntry
  others : List BioDev
  parts : List BioDev

namespace Ptable

def bioOpen (s : Ptable) (name : List UInt8) : Option BioDev := (s.others ++ s.parts).find? (·.name = name)

/-- `bio_unregister_device` of the device that `bio_open` finds -/
def unregister (s : Ptable) (name : List UInt8) : Ptable :=
  if s.others.any (·.name = name) then { s with others := s.others.eraseP (·.name = name) }
  else { s with parts := s.parts.eraseP (·.name = name) }

end Ptable

/-! ## entries -/

def ptableLength (entryCnt : Nat) : Nat := ptableHeaderSize + ptableEntrySize * entryCnt

/-- `validate_entry`, for a device of `total` bytes -/
def validateEntry (total : Nat) (e : PtableEntry) : Bool :=
  if e.offset > add64 e.offset e.length then false
  else if add64 e.offset e.length > total then false
  else
    let i := e.cname.length
    ¬ (i = 0 ∨ i ≥ MAX_FLASH_PTABLE_NAME_LEN)

/-- `ptable_find` -/
def ptableFind (s : Ptable) (name : List UInt8) : Bool := s.list.any (·.cname = name)

def ptablePushEntry (e : PtableEntry) : List PtableEntry → List PtableEntry
  | [] => [e]
  | it :: l => if it.offset > e.offset then e :: it :: l else it :: ptablePushEntry e l

/-- the device of a partition -/
def PtableEntry.subdevice (e : PtableEntry) (blockShift : Nat) (parent : Dev) (mem : Bool) : Except Int Dev :=
  bioPublishSubdevice (some parent) mem (BitVec.ofNat 32 (e.offset >>> blockShift))
    (BitVec.ofNat 32 (e.length >>> blockShift))

/-- what the heap answers when an entry is published: for the entry, for its device -/
structure PublishMem where
  calloc : Bool
  malloc : Bool

/-- `ptable_publish`, `p` being `ptable.bdev` -/
def ptablePublish (s : Ptable) (p : BioDev) (e : PtableEntry) (mem : PublishMem) : Ptable × Int :=
  let blockMask := 2 ^ p.dev.dev.blockShift - 1
  if ¬ validateEntry p.dev.dev.totalSize e then (s, ERR_NOT_FOUND)
  else if ptableFind s e.cname then (s, ERR_ALREADY_EXISTS)
  else if e.offset &&& blockMask ≠ 0 ∨ e.length &&& blockMask ≠ 0 then (s, ERR_BAD_STATE)
  else if add64 e.offset e.length ≤ e.offset then (s, ERR_INVALID_ARGS)
  else if add64 e.offset e.length > p.dev.dev.totalSize then (s, ERR_INVALID_ARGS)
  else if ¬ mem.calloc then (s, ERR_NO_MEMORY)
  else
    match s.bioOpen p.name with
    | none => (s.unregister e.cname, ERR_NOT_FOUND)
    | some parent =>
      match e.subdevice p.dev.dev.blockShift parent.dev mem.malloc with
      | .error err => (s.unregister e.cname, err)
      | .ok d => ({ s with list := ptablePushEntry e s.list, parts := s.parts ++ [⟨e.cname, d⟩] }, 0)

def ptableReset (s : Ptable) : Ptable :=
  { (s.list.foldl (fun s e => s.unregister e.cname) s) with bdev := none, gen := 0, list := [] }

/-! ## the allocator -/

/-- `bio_does_overlap` -/
def bioDoesOverlap (start1 len1 start2 len2 : Nat) : Option Bool :=
  let end1 := add64 start1 len1
  let end2 := add64 start2 len2
  if end1 < start1 ∨ end2 < start2 then none
  else some (decide ((start1 ≥ start2 ∧ start1 < end2) ∨ (start2 ≥ start1 ∧ start2 < end1)))

/-- the erase regions one after the other; the result is an offset and a length -/
def adjustInRegions (regionStart regionLen plength : Nat) (allocEnd : Bool) :
    List EraseRegion → Option (Except Int (Nat × Nat))
  | [] => some (.error ERR_INVALID_ARGS)
  | geo :: l =>
    match bioDoesOverlap regionStart regionLen geo.start geo.size with
    | none => none
    | some false => adjustInRegions regionStart regionLen plength allocEnd l
    | some true =>
      let eraseEnd := add64 geo.start geo.size
      let regionEnd := add64 regionStart regionLen
      let rstart := roundup64 (max regionStart geo.start) (shl1 geo.eraseShift)
      let rend := rounddown (min regionEnd eraseEnd) (shl1 geo.eraseShift)
      let length := roundup64 plength (shl1 geo.eraseShift)
      let tmp := add64 rstart length
      if tmp < rstart ∨ rend < tmp then adjustInRegions regionStart regionLen plength allocEnd l
      else some (.ok (if allocEnd then rend - length else rstart, length))

/-- `ptable_adjust_request_for_erase_geometry` -/
def ptableAdjustRequest (b : Bdev) (regionStart regionLen plength : Nat) (allocEnd : Bool) :
    Option (Except Int (Nat × Nat)) :=
  let blockMask := 2 ^ b.blockShift - 1
  if plength &&& blockMask ≠ 0 ∨ regionStart &&& blockMask ≠ 0 ∨ regionLen &&& blockMask ≠ 0 then none
  else if add64 regionStart regionLen < regionStart then none
  else if plength > regionLen then some (.error ERR_TOO_BIG)
  else if b.geometry = [] then some (.ok (if allocEnd then regionStart + regionLen - plength else regionStart, plength))
  else adjustInRegions regionStart regionLen plength allocEnd (if allocEnd then b.geometry.reverse else b.geometry)

/-- what a search has found so far -/
def bestOf (best : Option Nat) (length : Nat) : Except Int (Nat × Nat) :=
  match best with
  | some offset => .ok (offset, length)
  | none => .error ERR_NOT_FOUND

/-- where the region behind the last entry starts -/
def regionStartOf : Option PtableEntry → Nat
  | some lastentry => add64 lastentry.offset lastentry.length
  | none => 0

/-- the loop of `ptable_allocate`, and the region behind the last entry -/
def allocateLoop (b : Bdev) (allocEnd : Bool) : Option PtableEntry → Option Nat → Nat → List PtableEntry →
    Option (Except Int (Nat × Nat))
  | lastentry, best, length, entry :: l =>
    let regionStart := regionStartOf lastentry
    let regionLen := sub64 entry.offset regionStart
    if regionLen ≥ 2 ^ 63 then none
    else if regionLen = 0 then allocateLoop b allocEnd (some entry) best length l
    else
      match ptableAdjustRequest b regionStart regionLen length allocEnd with
      | none => none
      | some (.error _) => allocateLoop b allocEnd (some entry) best length l
      | some (.ok r) => if allocEnd then allocateLoop b allocEnd (some entry) (some r.1) r.2 l else some (.ok r)
  | lastentry, best, length, [] =>
    let regionStart := regionStartOf lastentry
    let regionLen := sub64 b.totalSize regionStart
    if lastentry.isNone ∨ regionLen ≥ 2 ^ 63 then none
    else if regionLen = 0 then some (bestOf best length)
    else
      match ptableAdjustRequest b regionStart regionLen length allocEnd with
      | none => none
      | some (.error _) => some (bestOf best length)
      | some (.ok r) => some (.ok r)

/-- `ptable_allocate` -/
def ptableAllocate (b : Bdev) (list : List PtableEntry) (plength : Nat) (allocEnd : Bool) :
    Option (Except Int (Nat × Nat)) :=
  let length := roundup64 plength (2 ^ b.blockShift)
  if list = [] then ptableAdjustRequest b 0 b.totalSize length allocEnd
  else allocateLoop b allocEnd none none length list

/-- whether a range overlaps an entry -/
def overlapsAny (offset length : Nat) : List PtableEntry → Option Bool
  | [] => some false
  | entry :: l =>
    match bioDoesOverlap offset length entry.offset entry.length with
    | none => none
    | some true => some true
    | some false => overlapsAny offset length l

/-- `ptable_allocate_at`; the length -/
def ptableAllocateAt (b : Bdev) (list : List PtableEntry) (offset plength : Nat) : Option (Except Int Nat) :=
  let blockMask := 2 ^ b.blockShift - 1
  if offset ≥ 2 ^ 63 then some (.error ERR_INVALID_ARGS)
  else if offset &&& blockMask ≠ 0 then some (.error ERR_INVALID_ARGS)
  else
    let plength := roundup64 plength (2 ^ b.blockShift)
    if add64 offset plength < offset then none
    else if ¬ bioContainsRange 0 b.totalSize offset plength then some (.error ERR_INVALID_ARGS)
    else
      match ptableAdjustRequest b offset (b.totalSize - offset) plength false with
      | none => none
      | some (.error _) => some (.error ERR_INVALID_ARGS)
      | some (.ok (newOffset, length)) =>
        if newOffset ≠ offset then some (.error ERR_INVALID_ARGS)
        else
          match overlapsAny offset length list with
          | none => none
          | some true => some (.error ERR_NOT_FOUND)
          | some false => some (.ok length)

/-! ## the calls -/

/-- what the commit of the table answers: for its buffer, for the erase and the write -/
structure WriteEnd where
  mem : Bool
  io : Bool

/-- `ptable_write` -/
def ptableWrite (s : Ptable) (w : WriteEnd) : Ptable × Int :=
  match s.bdev with
  | none => (s, ERR_NOT_MOUNTED)
  | some _ =>
    match s.bioOpen PTABLE_PART_NAME with
    | none => (s, ERR_BAD_STATE)
    | some bdev =>
      if ptableLength s.list.length > bdev.dev.dev.totalSize then (s, ERR_TOO_BIG)
      else if ¬ w.mem then (s, ERR_NO_MEMORY)
      else ({ s with gen := add32 s.gen 1 }, if w.io then 0 else ERR_IO)

/-- a name in its 12 bytes, by `memset` and `strlcpy` -/
def ptableName (name : List UInt8) : List UInt8 :=
  let name := name.take (MAX_FLASH_PTABLE_NAME_LEN - 1)
  name ++ List.replicate (MAX_FLASH_PTABLE_NAME_LEN - name.length) 0

/-- what a read of the flash answers: an error, or the bytes; fewer than asked for if the device ends -/
abbrev FlashRead := Nat → Nat → Except Int (List UInt8)

section
variable (crc32 : Nat → List UInt8 → Nat)

/-- the loop of `ptable_scan` over `n` entries from `off` on -/
def scanEntries (p : BioDev) (offset : Nat) (read : FlashRead) :
    Nat → List PublishMem → Ptable → Nat → Nat → Bool → Ptable × Except Int (Nat × Bool)
  | 0, _, s, _, crc, found => (s, .ok (crc, found))
  | n + 1, mem, s, off, crc, found =>
    match read off ptableEntrySize with
    | .error err => (s, .error err)
    | .ok b =>
      let entry := PtableEntry.decode b
      let (s, err) := ptablePublish s p entry (mem.headD ⟨true, true⟩)
      if err < 0 then (s, .error err)
      else if entry.cname = PTABLE_PART_NAME ∧ entry.offset ≠ offset then (s, .error ERR_BAD_STATE)
      else scanEntries p offset read n mem.tail s (off + ptableEntrySize) (crc32 crc entry.encode % 2 ^ 32)
        (found || entry.cname = PTABLE_PART_NAME)

/-- `ptable_scan`; `mem` is what the heap answers for each entry -/
def ptableScan (s : Ptable) (bdevName : List UInt8) (offset : Nat) (read : FlashRead) (mem : List PublishMem) :
    Ptable × Int :=
  let s := ptableReset s
  match s.bioOpen bdevName with
  | none => (ptableReset s, ERR_NOT_FOUND)
  | some p =>
    let s := { s with bdev := some p }
    match read offset ptableHeaderSize with
    | .error err => (ptableReset s, err)
    | .ok b =>
      -- a read that is too short ends the scan with the count of its bytes
      if b.length < ptableHeaderSize then (s, b.length)
      else
        let totalLength := u32 b 12
        if u32 b 0 ≠ PTABLE_MAGIC then (ptableReset s, ERR_NOT_FOUND)
        else if totalLength < ptableHeaderSize then (ptableReset s, ERR_NOT_FOUND)
        else if totalLength > p.dev.dev.blockSize then (ptableReset s, ERR_NOT_FOUND)
        else if (totalLength - ptableHeaderSize) % ptableEntrySize ≠ 0 then (ptableReset s, ERR_NOT_FOUND)
        else
          let crc := crc32 0 (ptableHeader 0 (u32 b 8) totalLength) % 2 ^ 32
          match scanEntries crc32 p offset read ((totalLength - ptableHeaderSize) / ptableEntrySize) mem s
            (offset + ptableHeaderSize) crc false with
          | (s, .error err) => (ptableReset s, err)
          | (s, .ok (crc, found)) =>
            if u32 b 4 ≠ crc then (ptableReset s, ERR_CRC_FAIL)
            else if ¬ found then (ptableReset s, ERR_NOT_FOUND)
            else (s, 0)

end

/-- `ptable_create_default` up to the commit of the table: what it returns before, or `none` -/
def prepareCreate (s : Ptable) (bdevName : List UInt8) (offset : Nat) (mem : PublishMem) : Option (Ptable × Option Int) :=
  let s := ptableReset s
  match s.bioOpen bdevName with
  | none => some (s, some ERR_NOT_FOUND)
  | some p =>
    let s := { s with bdev := some p }
    match ptableAllocateAt p.dev.dev s.list offset (ptableLength PTABLE_MIN_ENTRIES) with
    | none => none
    | some (.error err) => some (ptableReset s, some err)
    | some (.ok len) =>
      let (s, err) := ptablePublish s p ⟨offset, len, 0, ptableName PTABLE_PART_NAME⟩ mem
      if err < 0 then some (ptableReset s, some err) else some (s, none)

/-- `ptable_add` up to the commit of the table; `name` is a C string -/
def prepareAdd (s : Ptable) (name : List UInt8) (minLen : Nat) (allocEnd : Bool) (mem : PublishMem) :
    Option (Ptable × Option Int) :=
  match s.bdev with
  | none => some (s, some ERR_NOT_MOUNTED)
  | some p =>
    if name.length > MAX_FLASH_PTABLE_NAME_LEN - 1 then some (s, some ERR_INVALID_ARGS)
    else
      match ptableAllocate p.dev.dev s.list minLen allocEnd with
      | none => none
      | some (.error err) => some (s, some err)
      | some (.ok (partLoc, len)) =>
        let (s, err) := ptablePublish s p ⟨partLoc, len, 0, ptableName name⟩ mem
        if err < 0 then some (s, some err) else some (s, none)

/-- `ptable_remove` up to the commit of the table -/
def prepareRemove (s : Ptable) (name : List UInt8) : Option (Ptable × Option Int) :=
  if s.bdev.isNone then none
  else if name = PTABLE_PART_NAME then some (s, some ERR_NOT_ALLOWED)
  else if ptableFind s name then
    let s := s.unregister name
    some ({ s with list := s.list.eraseP (·.cname = name) }, none)
  else some (s, some ERR_NOT_FOUND)

/-- the commit of the table, if the call comes so far -/
def commitTable (w : WriteEnd) : Ptable × Option Int → Ptable × Int
  | (s, some err) => (s, err)
  | (s, none) => ptableWrite s w

inductive PtableOp where
  | scan (bdevName : List UInt8) (offset : Nat) (read : FlashRead) (mem : List PublishMem)
  | createDefault (bdevName : List UInt8) (offset : Nat) (mem : PublishMem) (w : WriteEnd)
  | add (name : List UInt8) (minLen : Nat) (allocEnd : Bool) (mem : PublishMem) (w : WriteEnd)
  | remove (name : List UInt8) (w : WriteEnd)

section
variable (crc32 : Nat → List UInt8 → Nat)

/-- a call and what it returns; a name has no byte 0 -/
def ptableCall (s : Ptable) : PtableOp → Option (Ptable × Int)
  | .scan bdevName offset read mem => some (ptableScan crc32 s bdevName offset read mem)
  | .createDefault bdevName offset mem w =>
    (prepareCreate s bdevName offset mem).map fun r =>
      let (s, err) := commitTable w r
      if err < 0 then (ptableReset s, err) else (s, err)
  | .add name minLen allocEnd mem w => (prepareAdd s (name.takeWhile (· ≠ 0)) minLen allocEnd mem).map (commitTable w)
  | .remove name w => (prepareRemove s (name.takeWhile (· ≠ 0))).map (commitTable w)

def ptableStep (s : Ptable) (op : PtableOp) : Option Ptable := (ptableCall crc32 s op).map (·.1)

/-- nothing is mounted at first, and any devices are registered -/
def ptableSys : Machine Ptable PtableOp :=
  .ofFun (fun s => s.bdev = none ∧ s.list = [] ∧ s.parts = []) (ptableStep crc32)

end

end LkHv
