import LkHv.Kernel.Crc32
import LkHv.Kernel.Err
import LkHv.Lib.ByteMemory
import LkHv.Lib.Machine
import LkHv.Lib.Ring

/-!
# The kernel log (`lib/klog/klog.c`)

The logs lie one behind the other in a memory, which starts where `klog_buf` points to.  A log is the address of its
header.

* `klogCreate`, `klogPutsLen`, `klogRead`, `klogSetCurrentBuffer`, `klogRecover`   the source's;
* `putByte_spec`   what a byte that is written does to the unread bytes of a log and to the sum of its data;
* `putsLoop_spec`  the same for a string.
-/

namespace LkHv.KernelLog
open ByteMemory

def MAX_KLOG_SIZE : Nat := 32 * 1024
def KLOG_BUFFER_HEADER_MAGIC : Nat := 0x4b4c4742
def KLOG_HEADER_MAGIC : Nat := 0x4b4c4f47

abbrev Memory := Nat → UInt8

/-! ## `struct klog_buffer_header` -/

def bufMagic (m : Memory) : Nat := u32At m 0
def headerCrc32 (m : Memory) : Nat := u32At m 4
def logCount (m : Memory) : Nat := u32At m 8
def currentLog (m : Memory) : Nat := u32At m 12
def totalSize (m : Memory) : Nat := u32At m 16

/-! ## `struct klog_header` -/

def logMagic (m : Memory) (k : Nat) : Nat := u32At m k
def logSize (m : Memory) (k : Nat) : Nat := u32At m (k + 4)
def logHead (m : Memory) (k : Nat) : Nat := u32At m (k + 8)
def logTail (m : Memory) (k : Nat) : Nat := u32At m (k + 12)
def dataChecksum (m : Memory) (k : Nat) : Nat := u32At m (k + 16)

/-- `get_checksum_klog_buffer_header` -/
def getChecksumKlogBufferHeader (m : Memory) : Nat := crc32 0 (bytesAt m 8 (20 - 8)) % 2 ^ 32

/-- `get_checksum_klog_data` -/
def getChecksumKlogData (m : Memory) (k : Nat) : Nat :=
  (bytesAt m (k + 20) (logSize m k)).foldl (fun sum b => (sum + b.toNat) % 2 ^ 32) 0

/-- `checksum_klog_buffer_header` -/
def checksumKlogBufferHeader (m : Memory) : Memory := put32 m 4 (getChecksumKlogBufferHeader m)

/-- `find_nth_log` -/
def findNthLog (m : Memory) : Nat → Nat
  | 0 => 20
  | n + 1 => findNthLog m n + 20 + logSize m (findNthLog m n)

/-- the memory, and where `klog` points to -/
structure Klog where
  mem : Memory
  klog : Nat

/-- `klog_set_current_buffer` -/
def klogSetCurrentBuffer (m : Memory) (klog buffer : Nat) : Klog × Int :=
  if buffer ≥ logCount m then (⟨m, klog⟩, ERR_INVALID_ARGS)
  else if buffer ≠ currentLog m then
    (⟨checksumKlogBufferHeader (put32 m 12 buffer), findNthLog m buffer⟩, 0)
  else (⟨m, findNthLog m buffer⟩, 0)

/-! ## creation -/

/-- `memset` with zero -/
def clear (m : Memory) (off len : Nat) : Memory := fun i => if off ≤ i ∧ i < off + len then 0 else m i

/-- one round of the loop of `klog_create` -/
def createLog (m : Memory) (ptr bufsize : Nat) : Memory :=
  let m := put32 m ptr KLOG_HEADER_MAGIC
  let m := put32 m (ptr + 4) bufsize
  let m := put32 m (ptr + 8) 0
  let m := put32 m (ptr + 12) 0
  let m := put32 m (ptr + 16) 0
  let m := clear m (ptr + 20) bufsize
  put32 m (ptr + 16) (getChecksumKlogData m ptr)

/-- the loop, with `n` logs to go -/
def createLogs (m : Memory) (ptr bufsize : Nat) : Nat → Memory
  | 0 => m
  | n + 1 => createLogs (createLog m ptr bufsize) (ptr + 20 + bufsize) bufsize n

/-- the size of each log, a `uint` -/
def createBufsize (len count : Nat) : Nat := (len - 20 - 20 * count) % 2 ^ 32 / count / 4 * 4

/-- `klog_create` of a memory of `len` bytes; none for bad arguments -/
def klogCreate (m : Memory) (len count : Nat) : Option Klog :=
  if count = 0 then none
  else if len < 20 + 20 * count + 4 * count then none
  else
    let m := put32 m 0 KLOG_BUFFER_HEADER_MAGIC
    let m := put32 m 8 count
    let m := put32 m 12 0
    let m := put32 m 16 (len % 2 ^ 32)
    let m := checksumKlogBufferHeader m
    let bufsize := createBufsize len count
    let m := createLogs m 20 bufsize count
    some (klogSetCurrentBuffer m (20 + (count - 1) * (20 + bufsize)) 0).1

/-! ## writing and reading -/

/-- the place behind another one -/
def bump (size i : Nat) : Nat := if i + 1 ≥ size then i + 1 - size else i + 1

/-- the head is bumped, and the tail if the head collides with it -/
def bumpHead (m : Memory) (k : Nat) : Memory :=
  let newhead := bump (logSize m k) (logHead m k)
  put32 (if logTail m k = newhead then put32 m (k + 12) (bump (logSize m k) (logTail m k)) else m) (k + 8) newhead

/-- one round of the loop of `klog_puts_len` -/
def putByte (m : Memory) (k : Nat) (c : UInt8) : Memory := bumpHead (Function.update m (k + 20 + logHead m k) c) k

/-- the loop: the memory, `deltasum` and the count -/
def putsLoop (m : Memory) (k deltasum : Nat) : List UInt8 → Memory × Nat × Nat
  | [] => (m, deltasum, 0)
  | c :: str =>
    if c = 0 then (m, deltasum, 0)
    else
      let deltasum := (deltasum + c.toNat + 2 ^ 32 - (m (k + 20 + logHead m k)).toNat) % 2 ^ 32
      let r := putsLoop (putByte m k c) k deltasum str
      (r.1, r.2.1, r.2.2 + 1)

/-- `klog_puts_len`; the list is the string as far as `len` lets it be read -/
def klogPutsLen (s : Klog) (str : List UInt8) : Klog × Nat :=
  let r := putsLoop s.mem s.klog 0 str
  (⟨put32 r.1 (s.klog + 16) ((dataChecksum r.1 s.klog + r.2.1) % 2 ^ 32), s.klog⟩, r.2.2)

/-- the runs of a log, as addresses and lengths -/
def logRuns (m : Memory) (k : Nat) : List (Nat × Nat) :=
  if logHead m k = logTail m k then []
  else if logHead m k > logTail m k then [(k + 20 + logTail m k, logHead m k - logTail m k)]
  else [(k + 20 + logTail m k, logSize m k - logTail m k), (k + 20, logHead m k)]

/-- `klog_get_buffer` -/
def klogGetBuffer (s : Klog) (buffer : Int) : Except Int (List (Nat × Nat)) :=
  if buffer ≥ 0 ∧ buffer.toNat ≥ logCount s.mem then .error ERR_INVALID_ARGS
  else .ok (logRuns s.mem (if buffer < 0 then s.klog else findNthLog s.mem buffer.toNat))

inductive KlogRet
  | code (e : Int)
  | data (b : List UInt8)

/-- the bytes that `klog_read` copies out of the runs -/
def copyRuns (m : Memory) (len : Nat) : List (Nat × Nat) → List UInt8
  | [] => []
  | (base, n) :: runs => bytesAt m base (min len n) ++ copyRuns m (len - min len n) runs

/-- `klog_read`, when the runs are known -/
def readRuns (s : Klog) (len : Nat) (runs : List (Nat × Nat)) : Klog × KlogRet :=
  if runs = [] then (s, .data [])
  else
    let b := copyRuns s.mem len runs
    -- `klog`, whatever `buf_id` is
    let tail := (logTail s.mem s.klog + b.length) % 2 ^ 32
    let tail := if tail ≥ logSize s.mem s.klog then tail - logSize s.mem s.klog else tail
    (⟨put32 s.mem (s.klog + 12) tail, s.klog⟩, .data b)

/-- `klog_read` -/
def klogRead (s : Klog) (len : Nat) (bufId : Int) : Klog × KlogRet :=
  match klogGetBuffer s bufId with
  | .error e => (s, .code e)
  | .ok runs => readRuns s len runs

/-! ## recovery -/

/-- what is read, as addresses and lengths -/
abbrev Reads := List (Nat × Nat)

/-- one log, as `klog_recover` looks at it -/
def recoverLog (m : Memory) (k : Nat) : Bool × Reads :=
  if logMagic m k ≠ KLOG_HEADER_MAGIC then (false, [(k, 4)])
  else if logSize m k > 0 ∧ logSize m k &&& 3 ≠ 0 then (false, [(k, 8)])
  else if logSize m k > MAX_KLOG_SIZE then (false, [(k, 8)])
  else if logHead m k ≥ logSize m k then (false, [(k, 12)])
  else if logTail m k ≥ logSize m k then (false, [(k, 16)])
  else if dataChecksum m k ≠ 0 then
    (getChecksumKlogData m k = dataChecksum m k, [(k, 20), (k + 20, logSize m k)])
  else (true, [(k, 20)])

/-- the walk over the logs, with `n` to go -/
def recoverLogs (m : Memory) (k : Nat) : Nat → Bool × Reads
  | 0 => (true, [])
  | n + 1 =>
    let r := recoverLog m k
    if r.1 then
      let rest := recoverLogs m (k + 20 + logSize m k) n
      (rest.1, r.2 ++ rest.2)
    else r

/-- the header is accepted -/
def headerOk (m : Memory) : Bool :=
  bufMagic m = KLOG_BUFFER_HEADER_MAGIC ∧ getChecksumKlogBufferHeader m = headerCrc32 m ∧
    totalSize m ≤ MAX_KLOG_SIZE ∧ currentLog m < logCount m

/-- what `find_nth_log` reads -/
def findReads (m : Memory) (n : Nat) : Reads := (List.range n).map fun i => (findNthLog m i, 8)

/-- `klog_recover`; none for `ERR_NOT_FOUND` -/
def klogRecover (m : Memory) : Option Klog × Reads :=
  if headerOk m then
    let r := recoverLogs m 20 (logCount m)
    if r.1 then
      (some (klogSetCurrentBuffer m 0 (currentLog m)).1, (0, 20) :: r.2 ++ findReads m (currentLog m))
    else (none, (0, 20) :: r.2)
  else (none, [(0, 20)])

/-! ## one log -/

/-- the header of a log of `B` bytes -/
structure LogShape (m : Memory) (k B : Nat) : Prop where
  magic : logMagic m k = KLOG_HEADER_MAGIC
  size : logSize m k = B
  head : logHead m k < B
  tail : logTail m k < B

/-- the unread bytes of a log -/
def unread (m : Memory) (k : Nat) : List UInt8 :=
  if logTail m k ≤ logHead m k then bytesAt m (k + 20 + logTail m k) (logHead m k - logTail m k)
  else bytesAt m (k + 20 + logTail m k) (logSize m k - logTail m k) ++ bytesAt m (k + 20) (logHead m k)

/-- how many bytes are unread -/
def unreadLen (B head tail : Nat) : Nat := if tail ≤ head then head - tail else head + B - tail

/-- the last `n` elements -/
def lastN {α : Type*} (n : Nat) (l : List α) : List α := l.drop (l.length - n)

theorem lastN_of_le {α : Type*} {n : Nat} {l : List α} (h : l.length ≤ n) : lastN n l = l := by
  unfold lastN
  rw [Nat.sub_eq_zero_of_le h, List.drop_zero]

theorem lastN_lastN {α : Type*} (n : Nat) (l r : List α) : lastN n (lastN n l ++ r) = lastN n (l ++ r) := by
  by_cases h : l.length ≤ n
  · rw [lastN_of_le h]
  · unfold lastN
    rw [List.drop_append, List.drop_append, List.drop_drop, List.length_append, List.length_append, List.length_drop]
    congr 2 <;> lia

section
variable {m m' : Memory} {k B : Nat}

theorem LogShape.congr (h : LogShape m k B) (hs : SameOn m m' k (k + 16)) : LogShape m' k B where
  magic := (hs.u32At (Nat.le_refl _) (by lia)).trans h.magic
  size := (hs.u32At (by lia) (by lia)).trans h.size
  head := (show logHead m' k = logHead m k from hs.u32At (by lia) (by lia)).trans_lt h.head
  tail := (show logTail m' k = logTail m k from hs.u32At (by lia) (by lia)).trans_lt h.tail

theorem unread_congr (h : LogShape m k B) (hs : SameOn m m' k (k + 16)) (hd : SameOn m m' (k + 20) (k + 20 + B)) :
    unread m' k = unread m k := by
  have h1 : logHead m' k = logHead m k := hs.u32At (by lia) (by lia)
  have h2 : logTail m' k = logTail m k := hs.u32At (by lia) (by lia)
  have h3 : logSize m' k = logSize m k := hs.u32At (by lia) (by lia)
  have hh := h.head
  have ht := h.tail
  have hz := h.size
  unfold unread
  rw [h1, h2, h3]
  split
  · rw [hd.bytesAt (by lia) (by lia)]
  · rw [hd.bytesAt (by lia) (by lia), hd.bytesAt (by lia) (by lia)]

theorem checksum_congr (h : LogShape m k B) (hs : SameOn m m' k (k + 16)) (hd : SameOn m m' (k + 20) (k + 20 + B)) :
    getChecksumKlogData m' k = getChecksumKlogData m k := by
  have h3 : logSize m' k = logSize m k := hs.u32At (by lia) (by lia)
  have hz := h.size
  unfold getChecksumKlogData
  rw [h3, hd.bytesAt (by lia) (by lia)]

/-- the unread bytes lie in the ring of the data -/
theorem unread_window (h : LogShape m k B) : unread m k =
    Ring.window (fun j => m (k + 20 + j)) B (logTail m k) (unreadLen B (logHead m k) (logTail m k)) := by
  have hh := h.head
  have ht := h.tail
  have hslice : ∀ t n, bytesAt m (k + 20 + t) n = Ring.slice (fun j => m (k + 20 + j)) t n := by
    intro t n
    apply List.map_congr_left
    intro i _
    show m (k + 20 + t + i) = m (k + 20 + (t + i))
    rw [Nat.add_assoc (k + 20)]
  unfold unread unreadLen
  split
  · rw [Ring.window_slice _ (by omega), hslice]
  · have e : logHead m k + B - logTail m k = (B - logTail m k) + logHead m k := by omega
    rw [e, Ring.window_add, Ring.window_slice _ (by omega), Nat.add_sub_cancel' (by omega), Nat.mod_self,
      Ring.window_slice _ (by omega), h.size, hslice, ← hslice 0, Nat.add_zero]

theorem unread_length (h : LogShape m k B) : (unread m k).length = unreadLen B (logHead m k) (logTail m k) := by
  rw [unread_window h, Ring.window_length]

/-- what is copied out of the runs of a log -/
theorem copyRuns_logRuns (m : Memory) (k len : Nat) : copyRuns m len (logRuns m k) = (unread m k).take len := by
  have htake : ∀ off n, (bytesAt m off n).take len = bytesAt m off (min len n) := by
    intro off n
    rw [bytesAt, ← List.map_take, List.take_range]
    rfl
  unfold logRuns unread
  split
  · rename_i e
    rw [if_pos e.symm.le, e, Nat.sub_self]
    exact List.take_nil.symm
  rename_i hne
  split
  · rw [if_pos (by lia), htake, copyRuns, copyRuns, List.append_nil]
  · rw [if_neg (by lia), List.take_append, htake, bytesAt_length, copyRuns, copyRuns, copyRuns, List.append_nil]
    congr 1
    rw [bytesAt, bytesAt, ← List.map_take, List.take_range]
    congr 2
    lia

theorem logRuns_nil (h : LogShape m k B) : logRuns m k = [] ↔ unread m k = [] := by
  have hh := h.head
  have ht := h.tail
  have hlen := unread_length h
  unfold unreadLen at hlen
  rw [← List.length_eq_zero_iff (l := unread m k), hlen]
  unfold logRuns
  split
  · rename_i e
    rw [if_pos e.symm.le]
    exact iff_of_true rfl (by lia)
  split
  · exact iff_of_false (List.cons_ne_nil _ _) (by split <;> lia)
  · exact iff_of_false (List.cons_ne_nil _ _) (by split <;> lia)

theorem mod_turn {a B : Nat} (h : a < 2 * B) : a % B = if a < B then a else a - B := by
  split
  · exact Nat.mod_eq_of_lt ‹_›
  · rw [Nat.mod_eq_sub_mod (by omega), Nat.mod_eq_of_lt (by omega)]

/-- a byte written to the head of a log -/
structure PutByte (m m' : Memory) (k B : Nat) (c : UInt8) : Prop where
  shape : LogShape m' k B
  low : SameOn m m' 0 (k + 8)
  sum : SameOn m m' (k + 16) (k + 20)
  high : ∀ hi, SameOn m m' (k + 20 + B) hi
  data : ∀ j, m' (k + 20 + j) = if j = logHead m k then c else m (k + 20 + j)
  unread : unread m' k = lastN (B - 1) (unread m k ++ [c])

theorem bump_lt {i : Nat} (h : i < B) : bump B i < B := by
  unfold bump
  split <;> omega

theorem bump_eq {i : Nat} (h : i < B) : bump B i = (i + 1) % B := by
  unfold bump
  rw [mod_turn (by lia)]
  split <;> split <;> lia

/-- how many bytes are unread after a bump -/
theorem unreadLen_bump {h t : Nat} (hh : h < B) (ht : t < B) :
    (t = bump B h → unreadLen B h t + 1 = B ∧ unreadLen B (bump B h) (bump B t) = B - 1) ∧
      (t ≠ bump B h → unreadLen B (bump B h) t = unreadLen B h t + 1 ∧ unreadLen B h t + 1 ≤ B - 1) := by
  unfold bump unreadLen
  constructor
  · intro e
    split at e <;> refine ⟨?_, ?_⟩ <;> (repeat' split) <;> lia
  · intro e
    split at e <;> refine ⟨?_, ?_⟩ <;> (repeat' split) <;> lia

/-- how many bytes are unread after a read of `a` bytes -/
theorem unreadLen_read {h t a : Nat} (hh : h < B) (ht : t < B) (ha : a ≤ unreadLen B h t) :
    (if t + a ≥ B then t + a - B else t + a) < B ∧
      unreadLen B h (if t + a ≥ B then t + a - B else t + a) = unreadLen B h t - a := by
  unfold unreadLen at *
  split at ha <;> refine ⟨?_, ?_⟩ <;> (repeat' split) <;> omega

/-- what `bumpHead` does to the header -/
theorem bumpHead_spec (h : LogShape m k B) (hB : B < 2 ^ 32) : LogShape (bumpHead m k) k B ∧
    logHead (bumpHead m k) k = bump B (logHead m k) ∧
    logTail (bumpHead m k) k = (if logTail m k = bump B (logHead m k) then bump B (logTail m k) else logTail m k) ∧
    ∀ lo hi, hi ≤ k + 8 ∨ k + 16 ≤ lo → SameOn m (bumpHead m k) lo hi := by
  have hh := bump_lt h.head
  have ht := bump_lt h.tail
  obtain ⟨m1, hm1⟩ : ∃ m1, m1 = if logTail m k = bump B (logHead m k) then put32 m (k + 12) (bump B (logTail m k))
      else m := ⟨_, rfl⟩
  have e : bumpHead m k = put32 m1 (k + 8) (bump B (logHead m k)) := by
    unfold bumpHead
    dsimp only
    rw [h.size, hm1]
  have hs1 : ∀ lo hi, hi ≤ k + 12 ∨ k + 16 ≤ lo → SameOn m m1 lo hi := by
    intro lo hi hd
    rw [hm1]
    split
    · exact SameOn.put32 m _ (by lia)
    · exact .refl _ _ _
  have hs2 : ∀ lo hi, hi ≤ k + 8 ∨ k + 12 ≤ lo → SameOn m1 (bumpHead m k) lo hi := by
    intro lo hi hd
    rw [e]
    exact SameOn.put32 m1 _ (by lia)
  have hs : ∀ lo hi, hi ≤ k + 8 ∨ k + 16 ≤ lo → SameOn m (bumpHead m k) lo hi := fun lo hi hd =>
    (hs1 lo hi (by lia)).trans (hs2 lo hi (by lia))
  have hhead : logHead (bumpHead m k) k = bump B (logHead m k) := by
    rw [e]
    exact u32At_put32 m1 (k + 8) (by lia)
  have htail : logTail (bumpHead m k) k =
      if logTail m k = bump B (logHead m k) then bump B (logTail m k) else logTail m k := by
    have e1 : logTail (bumpHead m k) k = logTail m1 k :=
      (hs2 (k + 12) (k + 16) (.inr (Nat.le_refl _))).u32At (Nat.le_refl _) (Nat.le_refl _)
    rw [e1, hm1]
    split
    · exact u32At_put32 m (k + 12) (by lia)
    · rfl
  have hfst := hs k (k + 8) (.inl (Nat.le_refl _))
  refine ⟨⟨(hfst.u32At (Nat.le_refl _) (by lia)).trans h.magic, (hfst.u32At (by lia) (by lia)).trans h.size,
    by rw [hhead]; exact hh, ?_⟩, hhead, htail, hs⟩
  rw [htail]
  split
  · exact ht
  · exact h.tail

theorem putByte_spec (h : LogShape m k B) (hB : B < 2 ^ 32) (c : UInt8) : PutByte m (putByte m k c) k B c := by
  have hh := h.head
  have ht := h.tail
  -- the header does not change when the byte is written
  obtain ⟨m1, hm1⟩ : ∃ m1, m1 = Function.update m (k + 20 + logHead m k) c := ⟨_, rfl⟩
  have hs1 : ∀ lo hi, hi ≤ k + 20 ∨ k + 20 + B ≤ lo → SameOn m m1 lo hi := by
    intro lo hi hd
    rw [hm1]
    exact SameOn.update m c (by lia)
  have h1 : LogShape m1 k B := h.congr (hs1 _ _ (.inl (by lia)))
  have e1 : logHead m1 k = logHead m k := (hs1 0 (k + 20) (.inl (Nat.le_refl _))).u32At (by lia) (by lia)
  have e2 : logTail m1 k = logTail m k := (hs1 0 (k + 20) (.inl (Nat.le_refl _))).u32At (by lia) (by lia)
  have e : putByte m k c = bumpHead m1 k := by rw [hm1]; rfl
  obtain ⟨hshape, hhead, htail, hs2⟩ := bumpHead_spec h1 hB
  rw [← e, e1] at hhead
  rw [← e, e1, e2] at htail
  rw [← e] at hshape hs2
  have hdata : ∀ j, putByte m k c (k + 20 + j) = if j = logHead m k then c else m (k + 20 + j) := by
    intro j
    rw [hs2 (k + 20 + j) (k + 20 + j + 1) (.inr (by lia)) _ (Nat.le_refl _) (Nat.lt_succ_self _), hm1]
    by_cases e : j = logHead m k
    · rw [e, if_pos rfl, Function.update_self]
    · rw [if_neg e, Function.update_of_ne (by lia)]
  refine ⟨hshape, (hs1 _ _ (.inl (by lia))).trans (hs2 _ _ (.inl (Nat.le_refl _))),
    (hs1 _ _ (.inl (Nat.le_refl _))).trans (hs2 _ _ (.inr (Nat.le_refl _))),
    fun hi => (hs1 _ _ (.inr (Nat.le_refl _))).trans (hs2 _ _ (.inr (by lia))), hdata, ?_⟩
  -- the ring with the byte behind the unread ones
  have hlen : unreadLen B (logHead m k) (logTail m k) < B := by
    unfold unreadLen
    split <;> lia
  have hplace : (logTail m k + unreadLen B (logHead m k) (logTail m k)) % B = logHead m k := by
    rw [mod_turn (by lia)]
    unfold unreadLen
    split <;> split <;> lia
  have hring : (fun j => putByte m k c (k + 20 + j)) = Function.update (fun j => m (k + 20 + j))
      ((logTail m k + unreadLen B (logHead m k) (logTail m k)) % B) c := by
    funext j
    rw [hdata, hplace]
    by_cases e : j = logHead m k
    · rw [e, if_pos rfl, Function.update_self]
    · rw [if_neg e, Function.update_of_ne e]
  have hall := Ring.window_update (fun j => m (k + 20 + j)) c (t := logTail m k) hlen
  rw [← hring, ← unread_window h] at hall
  rw [unread_window hshape, ← hall, hhead, htail]
  unfold lastN
  rw [Ring.window_length]
  obtain ⟨hfull, hroom⟩ := unreadLen_bump hh ht
  by_cases hc : logTail m k = bump B (logHead m k)
  · -- the ring is full, and the oldest byte goes
    obtain ⟨hn, hn'⟩ := hfull hc
    rw [if_pos hc, hn, Ring.window_drop _ _ _ (by lia), bump_eq ht, show B - (B - 1) = 1 by lia, ← bump_eq ht, hn']
  · obtain ⟨hn, hn'⟩ := hroom hc
    rw [if_neg hc, Nat.sub_eq_zero_of_le hn', List.drop_zero, hn]

/-! ## the sum of the data -/

def dataSum (m : Memory) (k B : Nat) : Nat := ((List.range B).map fun j => (m (k + 20 + j)).toNat).sum

theorem foldl_sum (l : List UInt8) (a : Nat) :
    l.foldl (fun sum b => (sum + b.toNat) % 2 ^ 32) (a % 2 ^ 32) = (a + (l.map UInt8.toNat).sum) % 2 ^ 32 := by
  induction l generalizing a with
  | nil => rfl
  | cons b l ih =>
    rw [List.foldl_cons, Nat.mod_add_mod, ih, List.map_cons, List.sum_cons, Nat.add_assoc]

theorem getChecksumKlogData_eq (h : LogShape m k B) : getChecksumKlogData m k = dataSum m k B % 2 ^ 32 := by
  have e := foldl_sum (bytesAt m (k + 20) (logSize m k)) 0
  rw [Nat.zero_mod, Nat.zero_add] at e
  rw [getChecksumKlogData, e, h.size, bytesAt, List.map_map]
  rfl

/-- a sum with one summand replaced -/
theorem sum_replace {f g : Nat → Nat} {i n : Nat} (hi : i < n) (h : ∀ j, j ≠ i → g j = f j) :
    ((List.range n).map g).sum + f i = ((List.range n).map f).sum + g i := by
  have hsame : ∀ l : List Nat, i ∉ l → (l.map g).sum = (l.map f).sum := fun l hl =>
    congrArg List.sum (List.map_congr_left fun j hj => h j fun e => hl (e ▸ hj))
  induction n with
  | zero => lia
  | succ n ih =>
    rw [List.range_succ, List.map_append, List.map_append, List.sum_append, List.sum_append]
    show _ + (g n + 0) + _ = _ + (f n + 0) + _
    by_cases e : i = n
    · subst e
      rw [hsame _ (by rw [List.mem_range]; lia)]
      lia
    · have := ih (by lia)
      rw [h n (Ne.symm e)]
      lia

theorem PutByte.dataSum {c : UInt8} (h : LogShape m k B) (hp : PutByte m m' k B c) :
    dataSum m' k B + (m (k + 20 + logHead m k)).toNat = dataSum m k B + c.toNat := by
  have e := sum_replace (f := fun j => (m (k + 20 + j)).toNat) (g := fun j => (m' (k + 20 + j)).toNat) h.head
    fun j hj => by
      show (m' _).toNat = (m _).toNat
      rw [hp.data, if_neg hj]
  rw [hp.data, if_pos rfl] at e
  exact e

/-! ## a string -/

/-- a string written to a log -/
structure Puts (m m' : Memory) (k B : Nat) (str : List UInt8) : Prop where
  shape : LogShape m' k B
  low : SameOn m m' 0 (k + 8)
  sum : SameOn m m' (k + 16) (k + 20)
  high : ∀ hi, SameOn m m' (k + 20 + B) hi
  unread : unread m' k = lastN (B - 1) (unread m k ++ str.takeWhile (· ≠ 0))

theorem unread_le (h : LogShape m k B) : (unread m k).length ≤ B - 1 := by
  have hh := h.head
  have ht := h.tail
  rw [unread_length h]
  unfold unreadLen
  split <;> omega

theorem putsLoop_spec (h : LogShape m k B) (hB : B < 2 ^ 32) (str : List UInt8) (d : Nat) :
    Puts m (putsLoop m k d str).1 k B str ∧
      (dataSum m k B + (putsLoop m k d str).2.1) % 2 ^ 32 = (dataSum (putsLoop m k d str).1 k B + d) % 2 ^ 32 := by
  have hstop : Puts m m k B [] := by
    refine ⟨h, .refl _ _ _, .refl _ _ _, fun hi => .refl _ _ _, ?_⟩
    rw [List.takeWhile_nil, List.append_nil, lastN_of_le (unread_le h)]
  induction str generalizing m d with
  | nil => exact ⟨hstop, rfl⟩
  | cons c str ih =>
    rw [putsLoop]
    by_cases hc : c = 0
    · rw [if_pos hc]
      refine ⟨⟨hstop.shape, hstop.low, hstop.sum, hstop.high, ?_⟩, rfl⟩
      rw [List.takeWhile_cons_of_neg (by simpa using hc)]
      exact hstop.unread
    · rw [if_neg hc]
      have hp := putByte_spec h hB c
      have hsum := hp.dataSum h
      have hold := (m (k + 20 + logHead m k)).toNat_lt
      obtain ⟨hr, hrsum⟩ := ih hp.shape ((d + c.toNat + 2 ^ 32 - (m (k + 20 + logHead m k)).toNat) % 2 ^ 32)
        ⟨hp.shape, .refl _ _ _, .refl _ _ _, fun hi => .refl _ _ _, by
          rw [List.takeWhile_nil, List.append_nil, lastN_of_le (unread_le hp.shape)]⟩
      refine ⟨⟨hr.shape, hp.low.trans hr.low, hp.sum.trans hr.sum, fun hi => (hp.high hi).trans (hr.high hi), ?_⟩, ?_⟩
      · dsimp only
        rw [hr.unread, hp.unread, lastN_lastN, List.takeWhile_cons_of_pos (by simpa using hc), List.append_assoc]
        rfl
      · dsimp only
        lia

/-- a string written by `klog_puts_len`, with the sum of the data -/
theorem klogPutsLen_spec {s : Klog} (h : LogShape s.mem s.klog B) (hB : B < 2 ^ 32)
    (hsum : dataChecksum s.mem s.klog = getChecksumKlogData s.mem s.klog) (str : List UInt8) :
    (klogPutsLen s str).1.klog = s.klog ∧ LogShape (klogPutsLen s str).1.mem s.klog B ∧
      SameOn s.mem (klogPutsLen s str).1.mem 0 s.klog ∧
      (∀ hi, SameOn s.mem (klogPutsLen s str).1.mem (s.klog + 20 + B) hi) ∧
      dataChecksum (klogPutsLen s str).1.mem s.klog = getChecksumKlogData (klogPutsLen s str).1.mem s.klog ∧
      unread (klogPutsLen s str).1.mem s.klog = lastN (B - 1) (unread s.mem s.klog ++ str.takeWhile (· ≠ 0)) := by
  obtain ⟨hr, hrsum⟩ := putsLoop_spec h hB str 0
  rw [Nat.add_zero, ← getChecksumKlogData_eq hr.shape] at hrsum
  have hold : dataChecksum (putsLoop s.mem s.klog 0 str).1 s.klog = dataSum s.mem s.klog B % 2 ^ 32 := by
    rw [← getChecksumKlogData_eq h, ← hsum]
    exact hr.sum.u32At (Nat.le_refl _) (Nat.le_refl _)
  -- the sum is written behind the rest of the header
  obtain ⟨m', hm'⟩ : ∃ m', m' = (klogPutsLen s str).1.mem := ⟨_, rfl⟩
  have hs : ∀ lo hi, hi ≤ s.klog + 16 ∨ s.klog + 20 ≤ lo → SameOn (putsLoop s.mem s.klog 0 str).1 m' lo hi := by
    intro lo hi hd
    rw [hm']
    exact SameOn.put32 _ _ (by lia)
  have hnew : dataChecksum m' s.klog = getChecksumKlogData (putsLoop s.mem s.klog 0 str).1 s.klog := by
    rw [← hrsum, ← Nat.mod_add_mod, ← hold, hm']
    exact u32At_put32 _ _ (Nat.mod_lt _ (by decide))
  have hhead := hs s.klog (s.klog + 16) (.inl (Nat.le_refl _))
  have hdata := hs (s.klog + 20) (s.klog + 20 + B) (.inr (Nat.le_refl _))
  rw [← hm']
  refine ⟨rfl, hr.shape.congr hhead, ?_, fun hi => (hr.high hi).trans (hs _ _ (.inr (by lia))), ?_, ?_⟩
  · exact (hr.low.mono (Nat.zero_le _) (by lia)).trans (hs _ _ (.inl (by lia)))
  · rw [hnew, checksum_congr hr.shape hhead hdata]
  · rw [unread_congr hr.shape hhead hdata, hr.unread]

end

end LkHv.KernelLog
