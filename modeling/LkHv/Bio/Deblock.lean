import LkHv.Bio.Trim
import LkHv.Lib.ByteMemory
import LkHv.Lib.Checked

/-!
# Access by bytes to a device of blocks (`lib/bio/bio.c`)

`bio_default_read` and `bio_default_write` take an access apart into a partial block, whole blocks and a partial block.

* `Drive`        the bytes of the device, and what its driver is going to return;
* `bioDefaultRead`, `bioDefaultWrite`   the source's, with a fault where `memcpy` leaves the buffer of one block;
* `Reads`, `Writes`   the bytes asked for and no others, or an error if the driver reported one;
* `CountFits`    the whole blocks go one by one, or their bytes are counted by a `uint`;
* `deblock_iff`  the accesses are right exactly if the count fits;
* `deblock_fails`   a read of 4 GiB.
-/

namespace LkHv.Bio
open ByteMemory Checked

/-! ## the driver -/

/-- the device: its bytes and what the calls of its driver return, `none` for all that was asked for -/
structure Drive where
  disk : Nat → UInt8
  outs : List (Option Int)
  /-- a call has returned something else than what was asked for -/
  failed : Bool

/-- what the driver returns for `full` bytes -/
def Drive.answer (s : Drive) (full : Nat) : Int := (s.outs.headD none).getD full

def Drive.next (s : Drive) (full : Nat) : Drive :=
  { s with outs := s.outs.tail, failed := s.failed || decide (s.answer full ≠ full) }

/-- `dev->read_block`; nobody looks at the bytes of a call that failed -/
def Drive.readBlock (d : Bdev) (s : Drive) (block count : Nat) : Int × List UInt8 × Drive :=
  let full := d.blockSize * count
  (s.answer full, bytesAt s.disk (block * d.blockSize) full, s.next full)

/-- `dev->write_block`; nobody looks at what a call that failed has written -/
def Drive.writeBlock (d : Bdev) (s : Drive) (block count : Nat) (data : List UInt8) : Int × Drive :=
  let full := d.blockSize * count
  (s.answer full, { s.next full with disk := putBytes s.disk (block * d.blockSize) (data.take full) })

def bioReadBlock (d : Bdev) (s : Drive) (block count : BitVec 32) : Int × List UInt8 × Drive :=
  let count := bioTrimBlockRange d block count
  if count = 0 then (0, [], s) else s.readBlock d block.toNat count.toNat

def bioWriteBlock (d : Bdev) (s : Drive) (block count : BitVec 32) (data : List UInt8) : Int × Drive :=
  let count := bioTrimBlockRange d block count
  if count = 0 then (0, s) else s.writeBlock d block.toNat count.toNat data

/-! ## the accesses -/

/-- the copies between a buffer and the bounce buffer of one block -/
inductive Fault
  | memcpy

/-- ends with a result, or at `err` with the error and the device -/
abbrev Io := Checked Fault (Int × Drive)

def BIO_FLAG_CACHE_ALIGNED_READS : Nat := 1 <<< 0
def BIO_FLAG_CACHE_ALIGNED_WRITES : Nat := 1 <<< 1
def CACHE_LINE : Nat := 64

/-- the tests behind each call: an error, or less than what was asked for -/
def checkErr (err : Int) (want : Nat) (s : Drive) : Io PUnit := do
  returnIf (err < 0) (err, s)
  returnIf (err.toNat ≠ want) ( ERR_IO, s)

def readBlocks (d : Bdev) (s : Drive) (block count : BitVec 32) : Io (List UInt8 × Drive) := do
  checkErr (bioReadBlock d s block count).1 (d.blockSize * count.toNat) (bioReadBlock d s block count).2.2
  pure (bioReadBlock d s block count).2

def writeBlocks (d : Bdev) (s : Drive) (block count : BitVec 32) (data : List UInt8) : Io Drive := do
  checkErr (bioWriteBlock d s block count data).1 (d.blockSize * count.toNat) (bioWriteBlock d s block count data).2
  pure (bioWriteBlock d s block count data).2

/-- the variables of an access -/
structure Cursor where
  drive : Drive
  /-- what has been read, or what is still to be written -/
  data : List UInt8
  buf : Nat
  len : Nat
  /-- `bytes_read`, `bytes_written` -/
  bytes : Nat
  block : BitVec 32

def Cursor.start (d : Bdev) (s : Drive) (data : List UInt8) (buf offset len : Nat) : Cursor :=
  ⟨s, data, buf, len, 0, BitVec.ofNat 32 (offset / d.blockSize)⟩

/-- `n` bytes and `blocks` blocks on -/
def Cursor.move (c : Cursor) (n : Nat) (blocks : BitVec 32) (s : Drive) : Cursor :=
  { c with drive := s, buf := c.buf + n, len := c.len - n, bytes := c.bytes + n, block := c.block + blocks }

/-- `n` bytes are in the buffer -/
def Cursor.got (c : Cursor) (n : Nat) (blocks : BitVec 32) (s : Drive) (data : List UInt8) : Cursor :=
  { c.move n blocks s with data := c.data ++ data }

/-- `n` bytes of the buffer are on the device -/
def Cursor.put (c : Cursor) (n : Nat) (blocks : BitVec 32) (s : Drive) : Cursor :=
  { c.move n blocks s with data := c.data.drop n }

/-- `tocopy` of the partial first block -/
def tocopy (d : Bdev) (offset len : Nat) : Nat := min (d.blockSize - offset % d.blockSize) len

/-- `requires_alignment` -/
def requiresAlignment (flags flag buf : Nat) : Bool := flags &&& flag ≠ 0 ∧ buf % CACHE_LINE ≠ 0

/-- `divpow2(len, dev->block_shift)`, of a `uint` -/
def numBlocks (d : Bdev) (len : Nat) : BitVec 32 := BitVec.ofNat 32 len >>> d.blockShift

def readFirst (d : Bdev) (offset : Nat) (c : Cursor) : Io Cursor :=
  if offset % d.blockSize ≠ 0 then do
    let r ← readBlocks d c.drive c.block 1
    pure (c.got (tocopy d offset c.len) 1 r.2 ((r.1.drop (offset % d.blockSize)).take (tocopy d offset c.len)))
  else pure c

/-- the loop, for as many rounds -/
def readEach (d : Bdev) : Nat → Cursor → Io Cursor
  | 0, c => pure c
  | n + 1, c =>
    if d.blockSize ≤ c.len then do
      let r ← readBlocks d c.drive c.block 1
      readEach d n (c.got d.blockSize 1 r.2 (r.1.take d.blockSize))
    else pure c

def readRun (d : Bdev) (c : Cursor) : Io Cursor := do
  let r ← readBlocks d c.drive c.block (numBlocks d c.len)
  pure (c.got (d.blockSize * (numBlocks d c.len).toNat) (numBlocks d c.len) r.2 r.1)

def readLast (d : Bdev) (c : Cursor) : Io Cursor :=
  if 0 < c.len then do
    let r ← readBlocks d c.drive c.block 1
    -- `temp` is one block
    if d.blockSize < c.len then fault .memcpy else pure (c.got c.len 0 r.2 (r.1.take c.len))
  else pure c

/-- the whole blocks; a block has at least a byte, so that the loop has at most `len` rounds -/
def readMiddle (d : Bdev) (flags : Nat) (c : Cursor) : Io Cursor :=
  if requiresAlignment flags BIO_FLAG_CACHE_ALIGNED_READS c.buf then readEach d c.len c else readRun d c

/-- `bio_default_read` -/
def bioDefaultRead (d : Bdev) (flags : Nat) (s : Drive) (buf offset len : Nat) : Io Cursor := do
  let c ← readFirst d offset (.start d s [] buf offset len)
  let c ← readMiddle d flags c
  readLast d c

def writeFirst (d : Bdev) (offset : Nat) (c : Cursor) : Io Cursor :=
  if offset % d.blockSize ≠ 0 then do
    let r ← readBlocks d c.drive c.block 1
    let n := tocopy d offset c.len
    let s ← writeBlocks d r.2 c.block 1
      (r.1.take (offset % d.blockSize) ++ c.data.take n ++ r.1.drop (offset % d.blockSize + n))
    pure (c.put n 1 s)
  else pure c

def writeEach (d : Bdev) : Nat → Cursor → Io Cursor
  | 0, c => pure c
  | n + 1, c =>
    if d.blockSize ≤ c.len then do
      let s ← writeBlocks d c.drive c.block 1 (c.data.take d.blockSize)
      writeEach d n (c.put d.blockSize 1 s)
    else pure c

def writeRun (d : Bdev) (c : Cursor) : Io Cursor := do
  let s ← writeBlocks d c.drive c.block (numBlocks d c.len) (c.data.take (d.blockSize * (numBlocks d c.len).toNat))
  pure (c.put (d.blockSize * (numBlocks d c.len).toNat) (numBlocks d c.len) s)

def writeLast (d : Bdev) (c : Cursor) : Io Cursor :=
  if 0 < c.len then do
    let r ← readBlocks d c.drive c.block 1
    -- `temp` is one block
    if d.blockSize < c.len then fault .memcpy
    else do
      let s ← writeBlocks d r.2 c.block 1 (c.data.take c.len ++ r.1.drop c.len)
      pure (c.put c.len 0 s)
  else pure c

def writeMiddle (d : Bdev) (flags : Nat) (c : Cursor) : Io Cursor :=
  if requiresAlignment flags BIO_FLAG_CACHE_ALIGNED_WRITES c.buf then writeEach d c.len c else writeRun d c

/-- `bio_default_write` of the buffer `data` -/
def bioDefaultWrite (d : Bdev) (flags : Nat) (s : Drive) (data : List UInt8) (buf offset len : Nat) : Io Cursor := do
  let c ← writeFirst d offset (.start d s data buf offset len)
  let c ← writeMiddle d flags c
  writeLast d c

/-- what the function returns, the device and the buffer behind it; nothing for a fault -/
def result (x : Io Cursor) : Option (Int × Drive × List UInt8) :=
  match x.run with
  | .error _ => none
  | .ok (.error e) => some (e.1, e.2, [])
  | .ok (.ok c) => some (c.bytes, c.drive, c.data)

/-! ## calls of the driver -/

/-- nothing has failed, and nothing is going to fail that was not -/
def Calm (s s' : Drive) : Prop := s'.failed = false ∧ (s.outs = [] → s'.outs = [])

/-- an error, of a driver that reported one -/
def Bad (s : Drive) (e : Int × Drive) : Prop := e.1 < 0 ∧ e.2.failed = true ∧ s.outs ≠ []

theorem Calm.trans {s s' s'' : Drive} (h : Calm s s') (h' : Calm s' s'') : Calm s s'' :=
  ⟨h'.1, fun hs => h'.2 (h.2 hs)⟩

theorem Bad.of_calm {s s' : Drive} (h : Calm s s') {e : Int × Drive} (he : Bad s' e) : Bad s e :=
  ⟨he.1, he.2.1, fun hs => he.2.2 (h.2 hs)⟩

theorem answer_nil {s : Drive} (h : s.outs = []) (full : Nat) : s.answer full = full := by
  rw [Drive.answer, h]
  rfl

variable {d : Bdev} {s s' : Drive} {block count : BitVec 32} {data : List UInt8}

theorem checkErr_ends {full : Nat} (h0 : s'.failed = (s.failed || decide (s.answer full ≠ full))) :
    Ends (checkErr (s.answer full) full s') (fun _ => s.answer full = full) (Bad s) := by
  have hbad : ∀ r : Int, r < 0 → s.answer full ≠ full → Bad s (r, s') := by
    intro r hr hne
    refine ⟨hr, ?_, fun hs => hne (answer_nil hs full)⟩
    show s'.failed = true
    rw [h0, decide_eq_true hne, Bool.or_true]
  unfold checkErr
  refine (ends_returnIf fun hneg => hbad _ hneg (by lia)).bind fun _ hneg => ?_
  refine (ends_returnIf fun hne => hbad ERR_IO (by decide) fun he => ?_).imp (fun _ heq => ?_) fun _ he => he
  · rw [he] at hne
    exact hne rfl
  · lia

theorem trimBlockRange_zero (d : Bdev) (block : BitVec 32) : bioTrimBlockRange d block 0 = 0 := by
  unfold bioTrimBlockRange
  split
  · rfl
  · rfl

theorem trimBlockRange_fits (h : block.toNat + count.toNat ≤ d.blockCount) : bioTrimBlockRange d block count = count := by
  have hlt := d.count_lt
  apply BitVec.eq_of_toNat_eq
  rw [trimBlockRange_toNat (by lia) (by lia)]
  lia

/-- **Reading blocks of the device** -/
theorem readBlocks_ends (h0 : s.failed = false) (hfit : count ≠ 0 → block.toNat + count.toNat ≤ d.blockCount) :
    Ends (readBlocks d s block count)
      (fun r => r.1 = bytesAt s.disk (block.toNat * d.blockSize) (d.blockSize * count.toNat) ∧ r.2.disk = s.disk ∧
        Calm s r.2) (Bad s) := by
  by_cases hz : count = 0
  · have hr : bioReadBlock d s block count = (0, [], s) := by
      rw [bioReadBlock, hz, trimBlockRange_zero]
      rfl
    unfold readBlocks
    rw [hr, hz]
    exact .inl ⟨_, rfl, rfl, rfl, h0, id⟩
  · have hr : bioReadBlock d s block count = s.readBlock d block.toNat count.toNat := by
      rw [bioReadBlock, trimBlockRange_fits (hfit hz)]
      exact if_neg hz
    unfold readBlocks
    rw [hr]
    refine (checkErr_ends rfl).bind fun _ hok => ends_pure ⟨rfl, rfl, ?_, fun hs => ?_⟩
    · show (s.failed || decide (s.answer _ ≠ _)) = false
      rw [h0, hok]
      exact Bool.or_eq_false_iff.mpr ⟨rfl, decide_eq_false (not_not.mpr rfl)⟩
    · show s.outs.tail = []
      rw [hs]
      rfl

/-- **Writing blocks of the device** -/
theorem writeBlocks_ends (h0 : s.failed = false) (hfit : count ≠ 0 → block.toNat + count.toNat ≤ d.blockCount)
    (hlen : data.length = d.blockSize * count.toNat) : Ends (writeBlocks d s block count data)
      (fun r => r.disk = putBytes s.disk (block.toNat * d.blockSize) data ∧ Calm s r) (Bad s) := by
  by_cases hz : count = 0
  · have hr : bioWriteBlock d s block count data = (0, s) := by
      rw [bioWriteBlock, hz, trimBlockRange_zero]
      rfl
    have hnil : data = [] := by
      apply List.eq_nil_of_length_eq_zero
      rw [hlen, hz]
      rfl
    unfold writeBlocks
    rw [hr, hz, hnil, putBytes_nil]
    exact .inl ⟨_, rfl, rfl, h0, id⟩
  · have hr : bioWriteBlock d s block count data = s.writeBlock d block.toNat count.toNat data := by
      rw [bioWriteBlock, trimBlockRange_fits (hfit hz)]
      exact if_neg hz
    unfold writeBlocks
    rw [hr]
    refine (checkErr_ends rfl).bind fun _ hok => ends_pure ⟨?_, ?_, fun hs => ?_⟩
    · show putBytes s.disk _ (data.take _) = _
      rw [List.take_of_length_le hlen.le]
    · show (s.failed || decide (s.answer _ ≠ _)) = false
      rw [h0, hok]
      exact Bool.or_eq_false_iff.mpr ⟨rfl, decide_eq_false (not_not.mpr rfl)⟩
    · show s.outs.tail = []
      rw [hs]
      rfl

/-! ## where a cursor is -/

/-- the bytes of the partial first block -/
def firstBytes (d : Bdev) (offset len : Nat) : Nat := if offset % d.blockSize ≠ 0 then tocopy d offset len else 0

/-- `bytes` of `len` bytes from `offset` on are done, and a block begins there -/
structure At (d : Bdev) (s₀ : Drive) (offset len : Nat) (c : Cursor) : Prop where
  calm : Calm s₀ c.drive
  sum : c.bytes + c.len = len
  block : 0 < c.len → c.block.toNat * d.blockSize = offset + c.bytes

section
variable {s₀ : Drive} {offset len n buf : Nat} {c : Cursor} {blocks : BitVec 32}

/-- the blocks that are left are blocks of the device -/
theorem At.fits (h : At d s₀ offset len c) (hin : offset + len ≤ d.totalSize) (hpos : 0 < c.len)
    (hn : n * d.blockSize < c.len + d.blockSize) : c.block.toNat + n ≤ d.blockCount := by
  have h1 := h.block hpos
  have h2 := h.sum
  rw [d.total_mul] at hin
  have h3 : (c.block.toNat + n) * d.blockSize < (d.blockCount + 1) * d.blockSize := by
    rw [Nat.add_mul, Nat.add_mul]
    omega
  exact Nat.le_of_lt_succ (Nat.lt_of_mul_lt_mul_right h3)

/-- whole blocks on -/
theorem At.move (h : At d s₀ offset len c) (hin : offset + len ≤ d.totalSize) (hs : Calm c.drive s')
    (hn : d.blockSize * blocks.toNat ≤ c.len) (data : List UInt8) :
    At d s₀ offset len { c.move (d.blockSize * blocks.toNat) blocks s' with data } where
  calm := h.calm.trans hs
  sum := by
    have := h.sum
    show c.bytes + d.blockSize * blocks.toNat + (c.len - d.blockSize * blocks.toNat) = len
    omega
  block := by
    intro hpos
    have hpos' : 0 < c.len := Nat.lt_of_lt_of_le hpos (Nat.sub_le _ _)
    have hfit := h.fits (n := blocks.toNat) hin hpos' (by rw [Nat.mul_comm]; have := d.blockSize_pos; omega)
    have hlt := d.count_lt
    have hadd : (c.block + blocks).toNat = c.block.toNat + blocks.toNat := by
      rw [BitVec.toNat_add]
      exact Nat.mod_eq_of_lt (by omega)
    show (c.block + blocks).toNat * d.blockSize = offset + (c.bytes + d.blockSize * blocks.toNat)
    rw [hadd, Nat.add_mul, h.block hpos', Nat.mul_comm blocks.toNat, Nat.add_assoc]

theorem start_toNat (hin : offset ≤ d.totalSize) : (BitVec.ofNat 32 (offset / d.blockSize)).toNat = offset / d.blockSize := by
  rw [BitVec.toNat_ofNat]
  apply Nat.mod_eq_of_lt
  have h : offset / d.blockSize ≤ d.blockCount := by
    rw [Nat.div_le_iff_le_mul_add_pred d.blockSize_pos, Nat.mul_comm, ← d.total_mul]
    omega
  exact Nat.lt_of_le_of_lt h d.count_lt

/-- the start, at a whole block -/
theorem At.start (h0 : s₀.failed = false) (hin : offset + len ≤ d.totalSize) (hz : offset % d.blockSize = 0)
    (data : List UInt8) (buf : Nat) : At d s₀ offset len (.start d s₀ data buf offset len) where
  calm := ⟨h0, id⟩
  sum := Nat.zero_add _
  block := by
    intro _
    show (BitVec.ofNat 32 (offset / d.blockSize)).toNat * d.blockSize = offset + 0
    rw [start_toNat (by omega), Nat.div_mul_cancel (Nat.dvd_of_mod_eq_zero hz), Nat.add_zero]

/-- the block that an access begins in -/
theorem start_fits (hin : offset ≤ d.totalSize) (hz : offset % d.blockSize ≠ 0) :
    (BitVec.ofNat 32 (offset / d.blockSize)).toNat + 1 ≤ d.blockCount := by
  rw [start_toNat hin]
  have hdiv := Nat.div_add_mod offset d.blockSize
  rw [d.total_mul, ← hdiv, Nat.mul_comm] at hin
  exact Nat.lt_of_mul_lt_mul_right (Nat.lt_of_lt_of_le (Nat.lt_add_of_pos_right (Nat.pos_of_ne_zero hz)) hin)

/-- behind a partial first block -/
theorem At.first (hs : Calm s₀ s') (hin : offset + len ≤ d.totalSize) (hz : offset % d.blockSize ≠ 0)
    (data data' : List UInt8) :
    At d s₀ offset len { (Cursor.start d s₀ data buf offset len).move (tocopy d offset len) 1 s' with data := data' } where
  calm := hs
  sum := by
    show 0 + tocopy d offset len + (len - tocopy d offset len) = len
    have : tocopy d offset len ≤ len := Nat.min_le_right _ _
    lia
  block := by
    intro hpos
    have hfit := start_fits (by lia) hz
    have hlt := d.count_lt
    have hmod := Nat.mod_lt offset d.blockSize_pos
    have hdiv := Nat.div_add_mod offset d.blockSize
    have hall : tocopy d offset len = d.blockSize - offset % d.blockSize := by
      have hpos : 0 < len - tocopy d offset len := hpos
      unfold tocopy at hpos ⊢
      lia
    have hadd : (BitVec.ofNat 32 (offset / d.blockSize) + 1).toNat = offset / d.blockSize + 1 := by
      rw [start_toNat (by lia)] at hfit
      rw [BitVec.toNat_add, start_toNat (by lia)]
      exact Nat.mod_eq_of_lt (Nat.lt_of_le_of_lt hfit hlt)
    show (BitVec.ofNat 32 (offset / d.blockSize) + 1).toNat * d.blockSize = offset + (0 + tocopy d offset len)
    rw [hadd, hall, Nat.add_mul, Nat.one_mul, Nat.mul_comm]
    lia

/-- the whole blocks of `len` bytes -/
theorem numBlocks_toNat (d : Bdev) (len : Nat) : (numBlocks d len).toNat = len % 2 ^ 32 / d.blockSize := by
  rw [numBlocks, BitVec.toNat_ushiftRight, BitVec.toNat_ofNat, Nat.shiftRight_eq_div_pow, d.blockSize_eq]

theorem numBlocks_le (d : Bdev) (len : Nat) : d.blockSize * (numBlocks d len).toNat ≤ len := by
  rw [numBlocks_toNat]
  exact (Nat.mul_div_le _ _).trans (Nat.mod_le _ _)

/-- what is left is less than a block exactly if the bytes were counted -/
theorem numBlocks_rest (d : Bdev) (len : Nat) :
    len - d.blockSize * (numBlocks d len).toNat ≤ d.blockSize ↔ len < 2 ^ 32 := by
  rw [numBlocks_toNat]
  have h1 := Nat.div_add_mod (len % 2 ^ 32) d.blockSize
  have h2 := Nat.mod_lt (len % 2 ^ 32) d.blockSize_pos
  have h3 := d.blockSize_le
  omega

theorem one_block (d : Bdev) : d.blockSize * (1 : BitVec 32).toNat = d.blockSize := Nat.mul_one _

/-- one block at the cursor -/
theorem At.readOne (h : At d s₀ offset len c) (hin : offset + len ≤ d.totalSize) (hpos : 0 < c.len) :
    Ends (readBlocks d c.drive c.block 1)
      (fun r => r.1 = bytesAt c.drive.disk (offset + c.bytes) d.blockSize ∧ r.2.disk = c.drive.disk ∧
        Calm c.drive r.2) (Bad s₀) := by
  have hfit := h.fits (n := 1) hin hpos (by omega)
  refine (readBlocks_ends h.calm.1 fun _ => hfit).imp (fun r ⟨h1, h2, h3⟩ => ⟨?_, h2, h3⟩) fun e => .of_calm h.calm
  rw [h1, one_block, h.block hpos]

/-! ## reading -/

/-- the bytes so far are in the buffer, and the device is as it was -/
structure ReadAt (d : Bdev) (s₀ : Drive) (offset len : Nat) (c : Cursor) : Prop extends At d s₀ offset len c where
  data : c.data = bytesAt s₀.disk offset c.bytes
  disk : c.drive.disk = s₀.disk

theorem ReadAt.got (h : ReadAt d s₀ offset len c) (hin : offset + len ≤ d.totalSize) (hs : Calm c.drive s')
    (hd : s'.disk = c.drive.disk) (hblocks : d.blockSize * blocks.toNat = n) (hn : n ≤ c.len)
    (hdata : data = bytesAt s₀.disk (offset + c.bytes) n) : ReadAt d s₀ offset len (c.got n blocks s' data) := by
  subst hblocks
  refine ⟨h.move hin hs hn _, ?_, hd.trans h.disk⟩
  show c.data ++ data = bytesAt s₀.disk offset (c.bytes + d.blockSize * blocks.toNat)
  rw [bytesAt_add, h.data, hdata]

theorem readFirst_ends (h0 : s₀.failed = false) (hin : offset + len ≤ d.totalSize) :
    Ends (readFirst d offset (.start d s₀ [] buf offset len))
      (fun c => ReadAt d s₀ offset len c ∧ c.len = len - firstBytes d offset len ∧
        c.buf = buf + firstBytes d offset len) (Bad s₀) := by
  unfold readFirst firstBytes
  by_cases hz : offset % d.blockSize = 0
  · rw [if_neg (not_not.mpr hz), if_neg (not_not.mpr hz)]
    exact ends_pure ⟨⟨.start h0 hin hz [] buf, rfl, rfl⟩, rfl, rfl⟩
  rw [if_pos hz, if_pos hz]
  have hstart : (BitVec.ofNat 32 (offset / d.blockSize)).toNat = offset / d.blockSize := start_toNat (by omega)
  refine (readBlocks_ends h0 fun _ => start_fits (by omega) hz).bind fun r ⟨hdata, hdisk, hcalm⟩ => ends_pure ?_
  refine ⟨⟨.first hcalm hin hz [] _, ?_, hdisk⟩, rfl, rfl⟩
  have hone : d.blockSize * (1 : BitVec 32).toNat = d.blockSize := Nat.mul_one _
  have hle : tocopy d offset len ≤ d.blockSize - offset % d.blockSize := Nat.min_le_left _ _
  have hblock : offset / d.blockSize * d.blockSize + offset % d.blockSize = offset := by
    rw [Nat.mul_comm, Nat.div_add_mod]
  show [] ++ (r.1.drop _).take (tocopy d offset len) = bytesAt s₀.disk offset (0 + tocopy d offset len)
  rw [hdata, hone, drop_bytesAt, take_bytesAt _ _ hle, List.nil_append, Nat.zero_add]
  show bytesAt s₀.disk ((BitVec.ofNat 32 (offset / d.blockSize)).toNat * d.blockSize + _) _ = _
  rw [hstart, hblock]

theorem readEach_ends (h : ReadAt d s₀ offset len c) (hin : offset + len ≤ d.totalSize) (hn : c.len ≤ n) :
    Ends (readEach d n c) (fun c' => ReadAt d s₀ offset len c' ∧ c'.len ≤ d.blockSize) (Bad s₀) := by
  have hsize := d.blockSize_pos
  induction n generalizing c with
  | zero => exact ends_pure ⟨h, by lia⟩
  | succ n ih =>
    rw [readEach]
    split
    · rename_i hle
      refine (h.readOne hin (by lia)).bind fun r ⟨hdata, hdisk, hcalm⟩ => ?_
      have htake : r.1.take d.blockSize = r.1 := by
        rw [hdata]
        exact List.take_of_length_le (bytesAt_length _ _ _).le
      refine ih (h.got hin hcalm hdisk (one_block d) hle (htake.trans (h.disk ▸ hdata))) ?_
      show c.len - d.blockSize ≤ n
      lia
    · exact ends_pure ⟨h, by lia⟩

/-- the whole blocks that were counted are there -/
theorem At.run_fits (h : At d s₀ offset len c) (hin : offset + len ≤ d.totalSize) (hne : numBlocks d c.len ≠ 0) :
    0 < c.len ∧ c.block.toNat + (numBlocks d c.len).toNat ≤ d.blockCount := by
  have hsize := d.blockSize_pos
  have hle := numBlocks_le d c.len
  have hpos : 0 < (numBlocks d c.len).toNat := Nat.pos_of_ne_zero fun e => hne (BitVec.eq_of_toNat_eq e)
  have hmul := Nat.mul_pos d.blockSize_pos hpos
  refine ⟨by omega, h.fits hin (by omega) ?_⟩
  rw [Nat.mul_comm]
  omega

theorem readRun_ends (h : ReadAt d s₀ offset len c) (hin : offset + len ≤ d.totalSize) : Ends (readRun d c)
      (fun c' => ReadAt d s₀ offset len c' ∧ c'.len = c.len - d.blockSize * (numBlocks d c.len).toNat) (Bad s₀) := by
  have hread := (readBlocks_ends h.calm.1 fun hne => (h.run_fits hin hne).2).imp (fun _ hr => hr)
    fun e => Bad.of_calm h.calm (e := e)
  refine hread.bind fun r ⟨hdata, hdisk, hcalm⟩ => ends_pure ⟨?_, rfl⟩
  refine h.got hin hcalm hdisk rfl (numBlocks_le d c.len) ?_
  by_cases hz : numBlocks d c.len = 0
  · rw [hdata, hz]
    rfl
  · rw [hdata, h.block (h.run_fits hin hz).1, h.disk]

theorem readLast_ends (h : ReadAt d s₀ offset len c) (hin : offset + len ≤ d.totalSize) (hc : c.len ≤ d.blockSize) :
    Ends (readLast d c) (fun c' => Calm s₀ c'.drive ∧ c'.drive.disk = s₀.disk ∧ c'.bytes = len ∧
      c'.data = bytesAt s₀.disk offset len) (Bad s₀) := by
  have hsum := h.sum
  unfold readLast
  split
  · rename_i hpos
    refine (h.readOne hin hpos).bind fun r ⟨hdata, hdisk, hcalm⟩ => ?_
    rw [if_neg (by lia)]
    refine ends_pure ⟨h.calm.trans hcalm, hdisk.trans h.disk, hsum, ?_⟩
    show c.data ++ r.1.take c.len = _
    rw [hdata, take_bytesAt _ _ hc, h.data, h.disk, ← bytesAt_add, hsum]
  · have hbytes : c.bytes = len := by lia
    exact ends_pure ⟨h.calm, h.disk, hbytes, by rw [h.data, hbytes]⟩

/-- more than a block is copied out of the bounce buffer -/
theorem readLast_fault (h : ReadAt d s₀ offset len c) (hin : offset + len ≤ d.totalSize) (hs : s₀.outs = [])
    (hc : d.blockSize < c.len) : ¬ NoFault (readLast d c) := by
  unfold readLast
  rw [if_pos (by omega), noFault_bind]
  rintro ⟨-, h2⟩
  rcases h.readOne hin (by omega) with ⟨r, hr, -⟩ | ⟨e, -, hbad⟩
  · have h3 := h2 r hr
    rw [if_pos hc] at h3
    exact not_noFault_fault h3
  · exact hbad.2.2 hs

/-- the whole blocks go one by one, or a `uint` holds their bytes -/
def CountFits (d : Bdev) (flags flag buf offset len : Nat) : Prop :=
  requiresAlignment flags flag (buf + firstBytes d offset len) = true ∨ len - firstBytes d offset len < 2 ^ 32

theorem readMiddle_ends (h : ReadAt d s₀ offset len c) (hin : offset + len ≤ d.totalSize) (flags : Nat) :
    Ends (readMiddle d flags c) (fun c' => ReadAt d s₀ offset len c' ∧ (c'.len ≤ d.blockSize ↔
      requiresAlignment flags BIO_FLAG_CACHE_ALIGNED_READS c.buf = true ∨ c.len < 2 ^ 32)) (Bad s₀) := by
  unfold readMiddle
  split
  · rename_i ha
    exact (readEach_ends h hin (Nat.le_refl _)).imp (fun _ hc => ⟨hc.1, iff_of_true hc.2 (.inl ha)⟩) fun _ he => he
  · rename_i ha
    refine (readRun_ends h hin).imp (fun c' hc => ⟨hc.1, ?_⟩) fun _ he => he
    rw [hc.2, numBlocks_rest]
    exact ⟨.inr, fun hor => hor.resolve_left ha⟩

/-- up to the partial last block -/
theorem readWhole_ends (h0 : s₀.failed = false) (hin : offset + len ≤ d.totalSize) (flags buf : Nat) :
    Ends (readFirst d offset (.start d s₀ [] buf offset len) >>= readMiddle d flags)
      (fun c => ReadAt d s₀ offset len c ∧
        (c.len ≤ d.blockSize ↔ CountFits d flags BIO_FLAG_CACHE_ALIGNED_READS buf offset len)) (Bad s₀) := by
  refine (readFirst_ends h0 hin).bind fun c ⟨hc, hlen, hbuf⟩ => ?_
  unfold CountFits
  rw [← hlen, ← hbuf]
  exact readMiddle_ends hc hin flags

theorem bioDefaultRead_eq (flags : Nat) (s : Drive) (buf : Nat) : bioDefaultRead d flags s buf offset len =
    (readFirst d offset (.start d s [] buf offset len) >>= readMiddle d flags) >>= readLast d := by
  rw [bind_assoc]
  rfl

/-! ## writing -/

/-- the bytes so far are on the device, and the others of the buffer are left -/
structure WriteAt (d : Bdev) (s₀ : Drive) (src : List UInt8) (offset : Nat) (c : Cursor) : Prop
    extends At d s₀ offset src.length c where
  data : c.data = src.drop c.bytes
  disk : c.drive.disk = putBytes s₀.disk offset (src.take c.bytes)

variable {src : List UInt8}

theorem WriteAt.put (h : WriteAt d s₀ src offset c) (hin : offset + src.length ≤ d.totalSize) (hs : Calm c.drive s')
    (hblocks : d.blockSize * blocks.toNat = n) (hn : n ≤ c.len)
    (hd : s'.disk = putBytes c.drive.disk (offset + c.bytes) (c.data.take n)) :
    WriteAt d s₀ src offset (c.put n blocks s') := by
  have hsum := h.sum
  subst hblocks
  refine ⟨h.move hin hs hn _, ?_, ?_⟩
  · show c.data.drop _ = src.drop (c.bytes + _)
    rw [h.data, List.drop_drop]
  · show s'.disk = putBytes s₀.disk offset (src.take (c.bytes + _))
    rw [hd, h.disk, h.data, List.take_add, putBytes_append, List.length_take, Nat.min_eq_left (by omega)]

theorem writeFirst_ends (h0 : s₀.failed = false) (hin : offset + src.length ≤ d.totalSize) :
    Ends (writeFirst d offset (.start d s₀ src buf offset src.length))
      (fun c => WriteAt d s₀ src offset c ∧ c.len = src.length - firstBytes d offset src.length ∧
        c.buf = buf + firstBytes d offset src.length) (Bad s₀) := by
  unfold writeFirst firstBytes
  by_cases hz : offset % d.blockSize = 0
  · rw [if_neg (not_not.mpr hz), if_neg (not_not.mpr hz)]
    exact ends_pure ⟨⟨.start h0 hin hz src buf, rfl, (putBytes_nil _ _).symm⟩, rfl, rfl⟩
  rw [if_pos hz, if_pos hz]
  have hstart : (BitVec.ofNat 32 (offset / d.blockSize)).toNat = offset / d.blockSize := start_toNat (by omega)
  have hfit := start_fits (by omega) hz
  have hblock : offset / d.blockSize * d.blockSize + offset % d.blockSize = offset := by
    rw [Nat.mul_comm, Nat.div_add_mod]
  have hle : offset % d.blockSize + tocopy d offset src.length ≤ d.blockSize := by
    have := Nat.mod_lt offset d.blockSize_pos
    unfold tocopy
    omega
  have hlen : (src.take (tocopy d offset src.length)).length = tocopy d offset src.length := by
    rw [List.length_take]
    exact Nat.min_eq_left (Nat.min_le_right _ _)
  refine (readBlocks_ends h0 fun _ => hfit).bind fun r ⟨hdata, hdisk, hcalm⟩ => ?_
  rw [one_block] at hdata
  have hpatch := putBytes_patch s₀.disk (offset / d.blockSize * d.blockSize) (l := src.take (tocopy d offset src.length))
    (hlen ▸ hle)
  rw [hlen, hblock] at hpatch
  refine ((writeBlocks_ends hcalm.1 (fun _ => hfit) ?_).imp (fun _ hw => hw) fun e => .of_calm hcalm).bind
    fun s ⟨hw, hcalm'⟩ => ends_pure ?_
  · rw [one_block, hdata, List.length_append, List.length_append, List.length_take, List.length_drop, bytesAt_length]
    show min (offset % d.blockSize) d.blockSize + (src.take (tocopy d offset src.length)).length +
      (d.blockSize - (offset % d.blockSize + tocopy d offset src.length)) = d.blockSize
    rw [hlen]
    omega
  refine ⟨⟨.first (hcalm.trans hcalm') hin hz src _, ?_, ?_⟩, rfl, rfl⟩
  · show src.drop (tocopy d offset src.length) = src.drop (0 + tocopy d offset src.length)
    rw [Nat.zero_add]
  · show s.disk = putBytes s₀.disk offset (src.take (0 + tocopy d offset src.length))
    rw [Nat.zero_add, ← hpatch, hw, hdata, hdisk]
    show putBytes _ ((BitVec.ofNat 32 (offset / d.blockSize)).toNat * _)
      (List.take _ (bytesAt _ ((BitVec.ofNat 32 (offset / d.blockSize)).toNat * _) _) ++ _ ++
        List.drop _ (bytesAt _ ((BitVec.ofNat 32 (offset / d.blockSize)).toNat * _) _)) = _
    rw [hstart]
    rfl

/-- one block -/
theorem writeOne_ends (h : WriteAt d s₀ src offset c) (hin : offset + src.length ≤ d.totalSize) (hpos : 0 < c.len)
    (hcalm : Calm c.drive s) (hlen : data.length = d.blockSize) : Ends (writeBlocks d s c.block 1 data)
      (fun r => r.disk = putBytes s.disk (offset + c.bytes) data ∧ Calm s r) (Bad s₀) := by
  have hfit := h.fits (n := 1) hin hpos (by omega)
  refine (writeBlocks_ends hcalm.1 (fun _ => hfit) (hlen.trans (one_block d).symm)).imp
    (fun r ⟨h1, h2⟩ => ⟨?_, h2⟩) fun e => .of_calm (h.calm.trans hcalm)
  rw [h1, h.block hpos]

/-- as many bytes are left in the buffer as are to be written -/
theorem WriteAt.length (h : WriteAt d s₀ src offset c) : c.data.length = c.len := by
  have hsum := h.sum
  rw [h.data, List.length_drop]
  omega

theorem writeEach_ends (h : WriteAt d s₀ src offset c) (hin : offset + src.length ≤ d.totalSize) (hn : c.len ≤ n) :
    Ends (writeEach d n c) (fun c' => WriteAt d s₀ src offset c' ∧ c'.len ≤ d.blockSize) (Bad s₀) := by
  have hsize := d.blockSize_pos
  induction n generalizing c with
  | zero => exact ends_pure ⟨h, by lia⟩
  | succ n ih =>
    rw [writeEach]
    split
    · rename_i hle
      have hlen : (c.data.take d.blockSize).length = d.blockSize := by
        rw [List.length_take, h.length]
        exact Nat.min_eq_left hle
      refine (writeOne_ends h hin (by lia) ⟨h.calm.1, id⟩ hlen).bind fun s ⟨hw, hcalm⟩ => ?_
      refine ih (h.put hin hcalm (one_block d) hle hw) ?_
      show c.len - d.blockSize ≤ n
      lia
    · exact ends_pure ⟨h, by lia⟩

theorem writeRun_ends (h : WriteAt d s₀ src offset c) (hin : offset + src.length ≤ d.totalSize) :
    Ends (writeRun d c) (fun c' => WriteAt d s₀ src offset c' ∧
      c'.len = c.len - d.blockSize * (numBlocks d c.len).toNat) (Bad s₀) := by
  have hle := numBlocks_le d c.len
  have hlen : (c.data.take (d.blockSize * (numBlocks d c.len).toNat)).length =
      d.blockSize * (numBlocks d c.len).toNat := by
    rw [List.length_take, h.length]
    exact Nat.min_eq_left hle
  have hwrite := (writeBlocks_ends h.calm.1 (fun hne => (h.run_fits hin hne).2) hlen).imp (fun _ hr => hr)
    fun e => Bad.of_calm h.calm (e := e)
  refine hwrite.bind fun s ⟨hw, hcalm⟩ => ends_pure ⟨h.put hin hcalm rfl hle ?_, rfl⟩
  by_cases hz : numBlocks d c.len = 0
  · have hnil : c.data.take (d.blockSize * (numBlocks d c.len).toNat) = [] := by
      rw [hz]
      rfl
    rw [hw, hnil, putBytes_nil, putBytes_nil]
  · rw [hw, h.block (h.run_fits hin hz).1]

theorem writeMiddle_ends (h : WriteAt d s₀ src offset c) (hin : offset + src.length ≤ d.totalSize) (flags : Nat) :
    Ends (writeMiddle d flags c) (fun c' => WriteAt d s₀ src offset c' ∧ (c'.len ≤ d.blockSize ↔
      requiresAlignment flags BIO_FLAG_CACHE_ALIGNED_WRITES c.buf = true ∨ c.len < 2 ^ 32)) (Bad s₀) := by
  unfold writeMiddle
  split
  · rename_i ha
    exact (writeEach_ends h hin (Nat.le_refl _)).imp (fun _ hc => ⟨hc.1, iff_of_true hc.2 (.inl ha)⟩) fun _ he => he
  · rename_i ha
    refine (writeRun_ends h hin).imp (fun c' hc => ⟨hc.1, ?_⟩) fun _ he => he
    rw [hc.2, numBlocks_rest]
    exact ⟨.inr, fun hor => hor.resolve_left ha⟩

/-- up to the partial last block -/
theorem writeWhole_ends (h0 : s₀.failed = false) (hin : offset + src.length ≤ d.totalSize) (flags buf : Nat) :
    Ends (writeFirst d offset (.start d s₀ src buf offset src.length) >>= writeMiddle d flags)
      (fun c => WriteAt d s₀ src offset c ∧
        (c.len ≤ d.blockSize ↔ CountFits d flags BIO_FLAG_CACHE_ALIGNED_WRITES buf offset src.length)) (Bad s₀) := by
  refine (writeFirst_ends h0 hin).bind fun c ⟨hc, hlen, hbuf⟩ => ?_
  unfold CountFits
  rw [← hlen, ← hbuf]
  exact writeMiddle_ends hc hin flags

theorem bioDefaultWrite_eq (flags : Nat) (s : Drive) (src : List UInt8) (buf : Nat) :
    bioDefaultWrite d flags s src buf offset len =
      (writeFirst d offset (.start d s src buf offset len) >>= writeMiddle d flags) >>= writeLast d := by
  rw [bind_assoc]
  rfl

theorem writeLast_ends (h : WriteAt d s₀ src offset c) (hin : offset + src.length ≤ d.totalSize)
    (hc : c.len ≤ d.blockSize) :
    Ends (writeLast d c) (fun c' => Calm s₀ c'.drive ∧ c'.drive.disk = putBytes s₀.disk offset src ∧
      c'.bytes = src.length) (Bad s₀) := by
  have hsum := h.sum
  have hlen := h.length
  unfold writeLast
  split
  · rename_i hpos
    refine (h.readOne hin hpos).bind fun r ⟨hdata, hdisk, hcalm⟩ => ?_
    rw [if_neg (by lia)]
    have htake : c.data.take c.len = c.data := List.take_of_length_le hlen.le
    have hpatch := putBytes_patch c.drive.disk (offset + c.bytes) (k := 0) (l := c.data) (n := d.blockSize) (by lia)
    rw [List.take_zero, List.nil_append, Nat.zero_add, hlen, Nat.add_zero] at hpatch
    refine (writeOne_ends h hin hpos hcalm ?_).bind fun s ⟨hw, hcalm'⟩ => ends_pure ⟨?_, ?_, hsum⟩
    · rw [htake, hdata, List.length_append, List.length_drop, bytesAt_length]
      lia
    · exact (h.calm.trans hcalm).trans hcalm'
    · show s.disk = _
      rw [hw, hdisk, htake, hdata, hpatch, h.disk, h.data]
      have happ := putBytes_append s₀.disk offset (src.take c.bytes) (src.drop c.bytes)
      rw [List.take_append_drop, List.length_take, Nat.min_eq_left (by lia)] at happ
      exact happ.symm
  · have hbytes : c.bytes = src.length := by lia
    refine ends_pure ⟨h.calm, ?_, hbytes⟩
    rw [h.disk, hbytes, List.take_length]

theorem writeLast_fault (h : WriteAt d s₀ src offset c) (hin : offset + src.length ≤ d.totalSize) (hs : s₀.outs = [])
    (hc : d.blockSize < c.len) : ¬ NoFault (writeLast d c) := by
  unfold writeLast
  rw [if_pos (by omega), noFault_bind]
  rintro ⟨-, h2⟩
  rcases h.readOne hin (by omega) with ⟨r, hr, -⟩ | ⟨e, -, hbad⟩
  · have h3 := h2 r hr
    rw [if_pos hc] at h3
    exact not_noFault_fault h3
  · exact hbad.2.2 hs

/-! ## what the accesses do -/

/-- `bio_default_read` returns `len` with the bytes of the device and leaves the device, or an error of the driver -/
def Reads (d : Bdev) (flags buf offset len : Nat) (s : Drive) : Prop :=
  ∃ ret s' data, result (bioDefaultRead d flags s buf offset len) = some (ret, s', data) ∧
    (s'.failed = true → ret < 0) ∧
    (s'.failed = false → ret = len ∧ data = bytesAt s.disk offset len ∧ s'.disk = s.disk)

/-- `bio_default_write` returns the length and has written the buffer and nothing else, or it returns an error of the
driver -/
def Writes (d : Bdev) (flags buf offset : Nat) (src : List UInt8) (s : Drive) : Prop :=
  ∃ ret s' data, result (bioDefaultWrite d flags s src buf offset src.length) = some (ret, s', data) ∧
    (s'.failed = true → ret < 0) ∧
    (s'.failed = false → ret = src.length ∧ s'.disk = putBytes s.disk offset src)

/-- what comes of a computation that ends -/
theorem result_of_ends {x : Io Cursor} {post : Cursor → Prop} {good : Int → Drive → List UInt8 → Prop}
    (h : Ends x post (Bad s₀)) (hpost : ∀ c, post c → c.drive.failed = false ∧ good c.bytes c.drive c.data) :
    ∃ ret s' data, result x = some (ret, s', data) ∧ (s'.failed = true → ret < 0) ∧
      (s'.failed = false → good ret s' data) := by
  unfold result
  rcases h with ⟨c, hx, hc⟩ | ⟨e, hx, he⟩
  · rw [show x.run = _ from hx]
    obtain ⟨h1, h2⟩ := hpost c hc
    exact ⟨_, _, _, rfl, fun hf => absurd (h1.symm.trans hf) Bool.false_ne_true, fun _ => h2⟩
  · rw [hx]
    exact ⟨_, _, _, rfl, fun _ => he.1, fun hf => absurd (hf.symm.trans he.2.1) Bool.false_ne_true⟩

theorem noFault_of_result {x : Io Cursor} {r : Int × Drive × List UInt8} (h : result x = some r) : NoFault x := by
  unfold result at h
  cases hx : x.run with
  | error f =>
    rw [hx] at h
    cases h
  | ok y => exact ⟨y, hx⟩

/-- nothing is going to fail -/
theorem faults_of_rest {x : Io Cursor} {f : Cursor → Io Cursor} {post : Cursor → Prop} (hs : s₀.outs = [])
    (h : Ends x post (Bad s₀)) (hf : ∀ c, post c → ¬ NoFault (f c)) : ¬ NoFault (x >>= f) := by
  rw [noFault_bind]
  rintro ⟨-, h2⟩
  rcases h with ⟨c, hx, hc⟩ | ⟨e, -, he⟩
  · exact hf c hc (h2 c hx)
  · exact he.2.2 hs

/-- a device whose driver does all that it is asked for -/
def calmDrive : Drive := ⟨fun _ => 0, [], false⟩

theorem reads_iff (hin : offset + len ≤ d.totalSize) (flags buf : Nat) :
    (∀ s : Drive, s.failed = false → Reads d flags buf offset len s) ↔
      CountFits d flags BIO_FLAG_CACHE_ALIGNED_READS buf offset len := by
  constructor
  · intro h
    obtain ⟨ret, s', data, hr, -⟩ := h calmDrive rfl
    have hno := noFault_of_result hr
    rw [bioDefaultRead_eq] at hno
    by_contra hfit
    refine faults_of_rest rfl (readWhole_ends rfl hin flags buf) (fun c ⟨hc, hiff⟩ => ?_) hno
    exact readLast_fault hc hin rfl (Nat.lt_of_not_le fun hle => hfit (hiff.mp hle))
  · intro hfit s h0
    unfold Reads
    rw [bioDefaultRead_eq]
    refine result_of_ends ((readWhole_ends h0 hin flags buf).bind fun c ⟨hc, hiff⟩ =>
      readLast_ends hc hin (hiff.mpr hfit)) fun c ⟨hcalm, hdisk, hbytes, hdata⟩ => ?_
    exact ⟨hcalm.1, congrArg Int.ofNat hbytes, hdata, hdisk⟩

theorem writes_iff (hin : offset + src.length ≤ d.totalSize) (flags buf : Nat) :
    (∀ s : Drive, s.failed = false → Writes d flags buf offset src s) ↔
      CountFits d flags BIO_FLAG_CACHE_ALIGNED_WRITES buf offset src.length := by
  constructor
  · intro h
    obtain ⟨ret, s', data, hr, -⟩ := h calmDrive rfl
    have hno := noFault_of_result hr
    rw [bioDefaultWrite_eq] at hno
    by_contra hfit
    refine faults_of_rest rfl (writeWhole_ends rfl hin flags buf) (fun c ⟨hc, hiff⟩ => ?_) hno
    exact writeLast_fault hc hin rfl (Nat.lt_of_not_le fun hle => hfit (hiff.mp hle))
  · intro hfit s h0
    unfold Writes
    rw [bioDefaultWrite_eq]
    refine result_of_ends ((writeWhole_ends h0 hin flags buf).bind fun c ⟨hc, hiff⟩ =>
      writeLast_ends hc hin (hiff.mpr hfit)) fun c ⟨hcalm, hdisk, hbytes⟩ => ?_
    exact ⟨hcalm.1, congrArg Int.ofNat hbytes, hdisk⟩

end

/-- **Access by bytes.**  For every access inside the device, whatever the driver returns, a read and a write are right
exactly if the bytes of the whole blocks are counted right. -/
theorem deblock_iff (d : Bdev) (flags buf offset len : Nat) (src : List UInt8) (hin : offset + len ≤ d.totalSize)
    (hout : offset + src.length ≤ d.totalSize) :
    ((∀ s : Drive, s.failed = false → Reads d flags buf offset len s) ↔
      CountFits d flags BIO_FLAG_CACHE_ALIGNED_READS buf offset len) ∧
    ((∀ s : Drive, s.failed = false → Writes d flags buf offset src s) ↔
      CountFits d flags BIO_FLAG_CACHE_ALIGNED_WRITES buf offset src.length) :=
  ⟨reads_iff hin flags buf, writes_iff hout flags buf⟩

/-- blocks of 512 bytes, 8 GiB of them -/
def bigDev : Bdev := plainDev 9 (2 ^ 24) (by decide)

/-- a read of some bytes in two blocks, and a write -/
theorem deblock_small :
    ((∀ s : Drive, s.failed = false → Reads bigDev 0 0 500 100 s) ↔
      CountFits bigDev 0 BIO_FLAG_CACHE_ALIGNED_READS 0 500 100) ∧
    ((∀ s : Drive, s.failed = false → Writes bigDev 0 0 500 [1, 2, 3] s) ↔
      CountFits bigDev 0 BIO_FLAG_CACHE_ALIGNED_WRITES 0 500 3) :=
  deblock_iff bigDev 0 0 500 100 [1, 2, 3] (by decide) (by decide)

/-- **4 GiB**: no whole block is counted, and `memcpy` copies all of them out of the bounce buffer. -/
theorem deblock_fails : ¬ ∀ (d : Bdev) (flags buf offset len : Nat), offset + len ≤ d.totalSize →
    ∀ s : Drive, s.failed = false → Reads d flags buf offset len s := by
  intro h
  have hin : 0 + 2 ^ 32 ≤ bigDev.totalSize := by decide
  rcases (reads_iff hin 0 0).mp (h bigDev 0 0 0 (2 ^ 32) hin) with hr | hr
  · exact absurd hr (by decide)
  · exact absurd hr (by decide)

end LkHv.Bio
