import Mathlib.Algebra.Order.Group.Nat
import Mathlib.Data.List.Range
import LkHv.Lib.Machine

/-!
# The block cache (`lib/bcache/bcache.c`)

A cache block is its index in `blocks`, the device a string of bytes.  What the device answers is part of
each call: which writes fail, whether the read fails, and what a failed transfer leaves behind.  A node that
is linked while it is on a list tears the lists: nothing is modelled after that.

* `bioRead`, `bioWrite`   transfers, cut at the end of the device (`lib/bio/bio.c`);
* `flushBlock`, `findBlock`, `allocBlock`, `findOrFillBlock`, `bcacheReadBlock`, `bcacheGetBlock`,
  `bcachePutBlock`, `bcacheMarkBlockDirty`, `bcacheZeroBlock`, `bcacheFlush`   the source's;
* `bcacheSys`             the cache under any sequence of calls, with what callers do to blocks they hold.

`written` and `unmarked` are ghosts: what was last stored under a block number, and whether a store has yet
to be followed by `bcache_mark_block_dirty`.
-/

namespace LkHv
namespace Bcache

/-- `struct bcache_block` -/
structure Block where
  blocknum : Nat
  refCount : Nat
  isDirty : Bool
  /-- the bytes at `ptr` -/
  content : Nat → Nat

structure Cache where
  blockSize : Nat
  count : Nat
  /-- `total_size` of the device, and its bytes -/
  devSize : Nat
  dev : Nat → Nat
  blocks : Nat → Block
  freeList : List Nat
  lruList : List Nat
  /-- a node is linked in two lists -/
  torn : Bool
  written : Nat → Nat → Nat
  unmarked : Nat → Bool

/-- the device during one call -/
structure Io where
  /-- the write of this block fails -/
  writeFails : Nat → Bool
  readFails : Bool
  /-- the bytes left behind where a transfer failed -/
  left : Nat → Nat

/-- what a call returns -/
inductive Out
  | err
  | ok
  | data (content : Nat → Nat)

namespace Cache

def setBlock (s : Cache) (b : Nat) (f : Block → Block) : Cache :=
  { s with blocks := Function.update s.blocks b (f (s.blocks b)) }

/-! ## `bio_read` and `bio_write` -/

/-- `bio_trim_range` -/
def bioTrimRange (s : Cache) (offset len : Nat) : Nat :=
  if s.devSize ≤ offset then 0
  else if len = 0 then 0
  else if offset + len > s.devSize then s.devSize - offset else len

/-- the bytes of block `n` of the device that a transfer reaches -/
def blockLen (s : Cache) (n : Nat) : Nat := s.bioTrimRange (n * s.blockSize) s.blockSize

/-- the device after `f` was written to the reach of block `n` -/
def devWrite (s : Cache) (n : Nat) (f : Nat → Nat) : Nat → Nat := fun i =>
  if n * s.blockSize ≤ i ∧ i < n * s.blockSize + s.blockLen n then f i else s.dev i

/-- the device after the call, and whether it succeeded; a transfer of no bytes does -/
def bioWrite (s : Cache) (io : Io) (n : Nat) (src : Nat → Nat) : (Nat → Nat) × Bool :=
  if s.blockLen n = 0 then (s.dev, true)
  else if io.writeFails n then (s.devWrite n io.left, false)
  else (s.devWrite n fun i => src (i - n * s.blockSize), true)

/-- the buffer after the call, and whether it succeeded -/
def bioRead (s : Cache) (io : Io) (n : Nat) (dst : Nat → Nat) : (Nat → Nat) × Bool :=
  if s.blockLen n = 0 then (dst, true)
  else if io.readFails then (fun i => if i < s.blockLen n then io.left i else dst i, false)
  else (fun i => if i < s.blockLen n then s.dev (n * s.blockSize + i) else dst i, true)

/-! ## blocks -/

def flushBlock (s : Cache) (io : Io) (b : Nat) : Cache × Bool :=
  let r := s.bioWrite io (s.blocks b).blocknum (s.blocks b).content
  if r.2 then (({ s with dev := r.1 } : Cache).setBlock b fun k => { k with isDirty := false }, true)
  else ({ s with dev := r.1 }, false)

/-- a block of the lru list moved to its tail -/
def touch (s : Cache) (b : Nat) : Cache := { s with lruList := s.lruList.erase b ++ [b] }

/-- find a block if it's already present -/
def findBlock (s : Cache) (n : Nat) : Cache × Option Nat :=
  match s.lruList.find? fun b => (s.blocks b).blocknum = n with
  | some b => (s.touch b, some b)
  | none => (s, none)

/-- allocate a new block -/
def allocBlock (s : Cache) (io : Io) : Cache × Option Nat :=
  match s.freeList with
  | b :: fs =>
    (({ s with freeList := fs, lruList := s.lruList ++ [b] } : Cache).setBlock b fun k =>
      { k with refCount := 0 }, some b)
  | [] =>
    match s.lruList.find? fun b => (s.blocks b).refCount = 0 with
    | none => (s, none)
    | some b =>
      if (s.blocks b).isDirty then
        let r := s.flushBlock io b
        if r.2 then (r.1.touch b, some b) else (r.1, none)
      else (s.touch b, some b)

/-- `none`: no block to be had (`DEBUG_ASSERT(block)`) -/
def findOrFillBlock (s : Cache) (io : Io) (n : Nat) : Option (Cache × Option Nat) :=
  match s.findBlock n with
  | (s, some b) => some (s, some b)
  | (s, none) =>
    match s.allocBlock io with
    | (_, none) => none
    | (s, some b) =>
      let r := s.bioRead io n (s.blocks b).content
      let s := s.setBlock b fun k => { k with blocknum := n, content := r.1 }
      if r.2 then some (s, some b)
      else
        -- the block goes to the free list, and stays on the lru list
        some ({ s with freeList := s.freeList ++ [b], torn := true }, none)

def bcacheReadBlock (s : Cache) (io : Io) (n : Nat) : Option (Cache × Out) :=
  (s.findOrFillBlock io n).map fun r =>
    match r.2 with
    | none => (r.1, .err)
    | some b => (r.1, .data (r.1.blocks b).content)

def bcacheGetBlock (s : Cache) (io : Io) (n : Nat) : Option (Cache × Out) :=
  (s.findOrFillBlock io n).map fun r =>
    match r.2 with
    | none => (r.1, .err)
    | some b => (r.1.setBlock b fun k => { k with refCount := k.refCount + 1 }, .data (r.1.blocks b).content)

/-- `none`: the assertions fail -/
def bcachePutBlock (s : Cache) (n : Nat) : Option (Cache × Out) :=
  match s.findBlock n with
  | (_, none) => none
  | (s, some b) =>
    if (s.blocks b).refCount = 0 then none
    else some (s.setBlock b fun k => { k with refCount := k.refCount - 1 }, .ok)

def bcacheMarkBlockDirty (s : Cache) (n : Nat) : Cache × Out :=
  match s.findBlock n with
  | (s, none) => (s, .err)
  | (s, some b) =>
    ({ s.setBlock b fun k => { k with isDirty := true } with
        unmarked := Function.update s.unmarked n false }, .ok)

/-- `memset`, and the block is dirty -/
def zeroed (s : Cache) (b n : Nat) : Cache :=
  { s.setBlock b fun k => { k with content := fun _ => 0, isDirty := true } with
      written := Function.update s.written n fun _ => 0 }

def bcacheZeroBlock (s : Cache) (io : Io) (n : Nat) : Cache × Out :=
  match s.findBlock n with
  | (s, some b) => (s.zeroed b n, .ok)
  | (s, none) =>
    match s.allocBlock io with
    | (s, none) => (s, .err)
    | (s, some b) => ((s.setBlock b fun k => { k with blocknum := n }).zeroed b n, .ok)

/-- the loop over the lru list -/
def flushLoop (io : Io) : List Nat → Cache → Cache × Out
  | [], s => (s, .ok)
  | b :: bs, s =>
    if (s.blocks b).isDirty then
      let r := s.flushBlock io b
      if r.2 then flushLoop io bs r.1 else (r.1, .err)
    else flushLoop io bs s

def bcacheFlush (s : Cache) (io : Io) : Cache × Out := flushLoop io s.lruList s

/-- a caller that holds block `n` stores to it -/
def store (s : Cache) (b n : Nat) (c : Nat → Nat) : Cache :=
  { s.setBlock b fun k => { k with content := c } with
      written := Function.update s.written n c
      unmarked := Function.update s.unmarked n true }

/-- the block that holds `n` -/
def blockOf (s : Cache) (n : Nat) : Option Nat := s.lruList.find? fun b => (s.blocks b).blocknum = n

end Cache

/-! ## any sequence of calls -/

inductive Op
  | read (io : Io) (n : Nat)
  | get (io : Io) (n : Nat)
  | put (n : Nat)
  | markDirty (n : Nat)
  | zero (io : Io) (n : Nat)
  | flush (io : Io)
  | store (n : Nat) (content : Nat → Nat)

/-- Callers store to a block that they hold, and mark it dirty before they put it for the last time. -/
def bcacheStep (s : Cache) (op : Op) : Option (Cache × Out) :=
  if s.torn then none
  else
    match op with
    | .read io n => s.bcacheReadBlock io n
    | .get io n => s.bcacheGetBlock io n
    | .put n =>
      if s.unmarked n ∧ (s.blockOf n).any (fun b => (s.blocks b).refCount = 1) then none
      else s.bcachePutBlock n
    | .markDirty n => some (s.bcacheMarkBlockDirty n)
    | .zero io n => some (s.bcacheZeroBlock io n)
    | .flush io => some (s.bcacheFlush io)
    | .store n c =>
      match s.blockOf n with
      | none => none
      | some b => if (s.blocks b).refCount = 0 then none else some (s.store b n c, .ok)

/-- `bcache_create` on a device -/
structure Boot (s : Cache) : Prop where
  freeList : s.freeList = (List.range s.count).reverse
  lruList : s.lruList = []
  whole : s.torn = false
  blocks : ∀ b < s.count, (s.blocks b).refCount = 0 ∧ (s.blocks b).isDirty = false
  written : ∀ n i, s.written n i = s.dev (n * s.blockSize + i)
  unmarked : ∀ n, s.unmarked n = false

def bcacheSys : Machine Cache Op where
  init := Boot
  step s op s' := ∃ out, bcacheStep s op = some (s', out)

end Bcache
end LkHv
