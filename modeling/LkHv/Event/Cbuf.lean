import LkHv.Kernel.Word
import LkHv.Lib.Ring
import Mathlib.Data.List.GetD

/-!
# Circular buffers (`lib/cbuf/cbuf.c`)

The `DEBUG_ASSERT`s are left out: nothing below needs them.

* `cbufInitializeEtc`, `cbufSpaceAvail`, `cbufSpaceUsed`, `cbufWrite`, `cbufRead`, `cbufPeek`, `cbufReset`,
  `cbufWriteChar`, `cbufReadChar`   the source's; each runs under the buffer's lock;
* `ByteQueue`              what a buffer is for: a bounded queue of bytes;
* `Cbuf.System`            threads that call an object and wait in blocking reads;
* `Cbuf.Rep`               a buffer stands for a queue;
* `cbuf_refines_queue`     threads on a buffer see what threads on a queue see.
-/

namespace LkHv

/-- `cbuf_t`; of the event only its flag, of the lock nothing -/
structure Cbuf where
  head : Nat
  tail : Nat
  lenPow2 : Nat
  buf : Nat → UInt8
  signaled : Bool

/-- a region that `cbuf_peek` reports; the base is an index of the buffer, `none` for `NULL` -/
structure Iovec where
  base : Option Nat
  len : Nat

namespace Cbuf

def incPointer (c : Cbuf) (ptr inc : Nat) : Nat := modpow2 (add64 ptr inc % 2 ^ 32) c.lenPow2

def cbufInitializeEtc (len : Nat) (buf : Nat → UInt8) : Cbuf where
  head := 0
  tail := 0
  lenPow2 := log2Uint (len % 2 ^ 32)
  buf := buf
  signaled := false

def cbufSpaceAvail (c : Cbuf) : Nat :=
  let consumed := modpow2 (sub32 c.head c.tail) c.lenPow2
  sub32 (sub32 (valpow2 c.lenPow2) consumed) 1

def cbufSpaceUsed (c : Cbuf) : Nat := modpow2 (sub32 c.head c.tail) c.lenPow2

/-- `1UL << cbuf->len_pow2` -/
def cbufSize (c : Cbuf) : Nat := shl1 c.lenPow2

/-- `write_len` of one pass, with `rem` bytes left to write -/
def writeLen (c : Cbuf) (rem : Nat) : Nat :=
  if c.head ≥ c.tail then
    if c.tail = 0 then
      -- up to the last byte but one: `head` at 0 would mean empty
      min (sub32 (sub32 (valpow2 c.lenPow2) c.head) 1) rem
    else
      min (sub32 (valpow2 c.lenPow2) c.head) rem
  else
    min (sub32 (sub32 c.tail c.head) 1) rem

/-- the loop of `cbuf_write`; `src` is what is copied: the caller's buffer or zeros -/
def writeLoop (c : Cbuf) (src : Nat → UInt8) (len pos : Nat) : Cbuf × Nat :=
  if pos < len ∧ c.cbufSpaceAvail > 0 then
    if h : c.writeLen (len - pos) = 0 then (c, pos)
    else
      let n := c.writeLen (len - pos)
      let c := { c with
        buf := Ring.put c.buf c.head (fun i => src (pos + i)) n
        head := c.incPointer c.head n }
      c.writeLoop src len (pos + n)
  else (c, pos)
termination_by len - pos
decreasing_by lia

/-- `buf` is the caller's buffer, `none` for `NULL` -/
def cbufWrite (c : Cbuf) (buf : Option (Nat → UInt8)) (len : Nat) : Cbuf × Nat :=
  let r := c.writeLoop (buf.getD fun _ => 0) len 0
  if r.1.head ≠ r.1.tail then ({ r.1 with signaled := true }, r.2) else r

/-- `read_len` of one pass, with `rem` bytes left to read -/
def readLen (c : Cbuf) (rem : Nat) : Nat :=
  if c.head > c.tail then min (sub32 c.head c.tail) rem
  else min (sub32 (valpow2 c.lenPow2) c.tail) rem

/-- the loop of `cbuf_read`, with the caller's buffer; a pass that reads nothing would be for ever (`none`) -/
def readLoop (c : Cbuf) (dst : Option (Nat → UInt8)) (buflen pos : Nat) :
    Option (Cbuf × Option (Nat → UInt8) × Nat) :=
  if pos < buflen ∧ c.tail ≠ c.head then
    if h : c.readLen (buflen - pos) = 0 then none
    else
      let n := c.readLen (buflen - pos)
      let dst := dst.map fun d => Ring.put d pos (fun i => c.buf (c.tail + i)) n
      let c := { c with tail := c.incPointer c.tail n }
      c.readLoop dst buflen (pos + n)
  else some (c, dst, pos)
termination_by buflen - pos
decreasing_by omega

/-- one turn of `cbuf_read` under the lock -/
def cbufRead (c : Cbuf) (dst : Option (Nat → UInt8)) (buflen : Nat) : Option (Cbuf × Option (Nat → UInt8) × Nat) :=
  if c.tail ≠ c.head then
    (c.readLoop dst buflen 0).map fun r => if r.1.tail = r.1.head then ({ r.1 with signaled := false }, r.2) else r
  else some (c, dst, 0)

def cbufPeek (c : Cbuf) : Nat × Iovec × Iovec :=
  let ret := c.cbufSpaceUsed
  let sz := c.cbufSize
  let base := if ret ≠ 0 then some c.tail else none
  if add64 ret c.tail > sz then
    (ret, ⟨base, sub64 sz c.tail⟩, ⟨some 0, sub64 ret (sub64 sz c.tail)⟩)
  else (ret, ⟨base, ret⟩, ⟨none, 0⟩)

def cbufReset (c : Cbuf) : Option Cbuf := (c.cbufRead none c.cbufSize).map (·.1)

def cbufWriteChar (c : Cbuf) (ch : UInt8) : Cbuf × Nat :=
  if c.cbufSpaceAvail > 0 then
    let c := { c with buf := Function.update c.buf c.head ch, head := c.incPointer c.head 1 }
    (if c.head ≠ c.tail then { c with signaled := true } else c, 1)
  else (c, 0)

/-- one turn of `cbuf_read_char` under the lock -/
def cbufReadChar (c : Cbuf) (ch : UInt8) : Cbuf × UInt8 × Nat :=
  if c.tail ≠ c.head then
    let ch := c.buf c.tail
    let c := { c with tail := c.incPointer c.tail 1 }
    (if c.tail = c.head then { c with signaled := false } else c, ch, 1)
  else (c, ch, 0)

/-- the bytes of a region -/
def iovBytes (c : Cbuf) (v : Iovec) : List UInt8 :=
  match v.base with
  | none => []
  | some base => Ring.slice c.buf base v.len

/-! ## threads -/

/-- the calls on a buffer; `block` is a flag of the reads -/
inductive Call
  | write (buf : Option (Nat → UInt8)) (len : Nat)
  | writeChar (ch : UInt8)
  | read (dst : Option (Nat → UInt8)) (buflen : Nat) (block : Bool)
  | readChar (ch : UInt8) (block : Bool)
  | peek
  | reset

def Call.block : Call → Bool
  | .read _ _ block => block
  | .readChar _ block => block
  | _ => false

/-- What a call hands back: the number it returns, with the reader's buffer or character after it, or the
bytes of the regions peeked at. -/
inductive Answer
  | count (n : Nat)
  | filled (n : Nat) (dst : Option (Nat → UInt8))
  | char (n : Nat) (ch : UInt8)
  | peeked (n : Nat) (bytes : List UInt8)
  | done

/-- a read with this answer found nothing -/
def Answer.nothing : Answer → Bool
  | .filled n _ => n = 0
  | .char n _ => n = 0
  | _ => false

/-- an object with threads that wait in a blocking call, and the answers they got, the last one first -/
structure System (σ : Type) where
  obj : σ
  blocked : Nat → Option Call
  log : List (Nat × Answer)

/-- A thread calls, or looks again after `event_wait`.  It may do that at any time: `event_wait` returns on a
signal that may be gone when the lock is taken. -/
inductive Event
  | call (t : Nat) (c : Call)
  | retry (t : Nat)

namespace System
variable {σ : Type} (perform : σ → Call → Option (σ × Answer))

/-- one turn under the lock; a blocking read that found nothing waits again -/
def turn (s : System σ) (t : Nat) (c : Call) : Option (System σ) :=
  (perform s.obj c).map fun r =>
    if c.block ∧ r.2.nothing then ⟨r.1, Function.update s.blocked t (some c), s.log⟩
    else ⟨r.1, Function.update s.blocked t none, (t, r.2) :: s.log⟩

/-- a blocking call waits for the event first; a thread that is blocked makes no call -/
def step (s : System σ) : Event → Option (System σ)
  | .call t c =>
    if (s.blocked t).isSome then some s
    else if c.block then some { s with blocked := Function.update s.blocked t (some c) }
    else s.turn perform t c
  | .retry t =>
    match s.blocked t with
    | none => some s
    | some c => s.turn perform t c

/-- the system after some events, `none` if one of them never ends -/
def run (s : System σ) : List Event → Option (System σ)
  | [] => some s
  | e :: es => (s.step perform e).bind fun s => s.run es

end System

/-- a call on a buffer -/
def perform (c : Cbuf) : Call → Option (Cbuf × Answer)
  | .write buf len => let r := c.cbufWrite buf len; some (r.1, .count r.2)
  | .writeChar ch => let r := c.cbufWriteChar ch; some (r.1, .count r.2)
  | .read dst buflen _ => (c.cbufRead dst buflen).map fun r => (r.1, .filled r.2.2 r.2.1)
  | .readChar ch _ => let r := c.cbufReadChar ch; some (r.1, .char r.2.2 r.2.1)
  | .peek => let r := c.cbufPeek; some (c, .peeked r.1 (c.iovBytes r.2.1 ++ c.iovBytes r.2.2))
  | .reset => c.cbufReset.map fun c => (c, .done)

end Cbuf

/-! ## the queue -/

/-- a queue of bytes of capacity `cap`, the oldest byte first -/
structure ByteQueue where
  cap : Nat
  bytes : List UInt8

namespace ByteQueue

/-- append the longest prefix that fits -/
def push (q : ByteQueue) (bs : List UInt8) : ByteQueue × Nat :=
  let fit := bs.take (q.cap - q.bytes.length)
  ({ q with bytes := q.bytes ++ fit }, fit.length)

/-- remove the oldest bytes, `n` of them if there are so many -/
def pop (q : ByteQueue) (n : Nat) : ByteQueue × List UInt8 := ({ q with bytes := q.bytes.drop n }, q.bytes.take n)

/-- a reader's buffer with `bs` from `pos` on -/
def fill (dst : Nat → UInt8) (pos : Nat) (bs : List UInt8) : Nat → UInt8 := fun i =>
  if pos ≤ i then bs.getD (i - pos) (dst i) else dst i

/-- a call on a queue -/
def perform (q : ByteQueue) : Cbuf.Call → Option (ByteQueue × Cbuf.Answer)
  | .write buf len => let r := q.push (Ring.slice (buf.getD fun _ => 0) 0 len); some (r.1, .count r.2)
  | .writeChar ch => let r := q.push [ch]; some (r.1, .count r.2)
  | .read dst buflen _ =>
    let r := q.pop buflen
    some (r.1, .filled r.2.length (dst.map fun d => fill d 0 r.2))
  | .readChar ch _ => let r := q.pop 1; some (r.1, .char r.2.length (r.2.headD ch))
  | .peek => some (q, .peeked q.bytes.length q.bytes)
  | .reset => some ({ q with bytes := [] }, .done)

end ByteQueue

/-! ## what the cells hold -/

namespace Cbuf

/-- the bytes in the buffer, the oldest first -/
structure Holds (c : Cbuf) (bs : List UInt8) : Prop where
  pow : c.lenPow2 < 32
  fits : bs.length < 2 ^ c.lenPow2
  tail : c.tail < 2 ^ c.lenPow2
  head : c.head = (c.tail + bs.length) % 2 ^ c.lenPow2
  bytes : Ring.window c.buf (2 ^ c.lenPow2) c.tail bs.length = bs

/-- the buffer stands for the queue -/
structure Rep (c : Cbuf) (q : ByteQueue) : Prop where
  holds : c.Holds q.bytes
  cap : q.cap = 2 ^ c.lenPow2 - 1
  signaled : c.signaled = !q.bytes.isEmpty

theorem two_pow_le {k : Nat} (h : k < 32) : 2 ^ k ≤ 2 ^ 31 := Nat.pow_le_pow_right (by decide) (by omega)

theorem incPointer_eq (c : Cbuf) {ptr inc : Nat} (h : c.lenPow2 < 32) (hs : ptr + inc < 2 ^ 32) :
    c.incPointer ptr inc = (ptr + inc) % 2 ^ c.lenPow2 := by
  rw [incPointer, modpow2_eq _ h, add64_of_lt (by omega), Nat.mod_eq_of_lt hs]

namespace Holds
variable {c : Cbuf} {bs : List UInt8}

theorem size_le (h : c.Holds bs) : 2 ^ c.lenPow2 ≤ 2 ^ 31 := two_pow_le h.pow

/-- the bytes lie in one piece, or go round the end -/
theorem shape (h : c.Holds bs) : c.head = c.tail + bs.length ∧ c.head < 2 ^ c.lenPow2 ∨
      c.head + 2 ^ c.lenPow2 = c.tail + bs.length ∧ c.head < c.tail := by
  have hf := h.fits
  have ht := h.tail
  rcases Nat.lt_or_ge (c.tail + bs.length) (2 ^ c.lenPow2) with hlt | hge
  · left
    rw [h.head, Nat.mod_eq_of_lt hlt]
    exact ⟨rfl, hlt⟩
  · right
    rw [h.head, Nat.mod_eq_sub_mod hge, Nat.mod_eq_of_lt (by omega)]
    omega

theorem head_eq_tail (h : c.Holds bs) : c.head = c.tail ↔ bs = [] := by
  have hf := h.fits
  have ht := h.tail
  have hs := h.shape
  rw [← List.length_eq_zero_iff]
  omega

theorem used (h : c.Holds bs) : c.cbufSpaceUsed = bs.length := by
  have hN := h.size_le
  have hf := h.fits
  have ht := h.tail
  rw [cbufSpaceUsed, modpow2_eq _ h.pow]
  rcases h.shape with ⟨h1, h2⟩ | ⟨h1, h2⟩
  · rw [sub32_of_le (by omega) (by omega), Nat.mod_eq_of_lt (by omega)]
    omega
  · have hd : 2 ^ 32 = 2 ^ c.lenPow2 * 2 ^ (32 - c.lenPow2) := by
      rw [← Nat.pow_add, Nat.add_sub_cancel' (by have := h.pow; omega)]
    have hp : 0 < 2 ^ (32 - c.lenPow2) := Nat.two_pow_pos _
    have hm : 2 ^ c.lenPow2 * (2 ^ (32 - c.lenPow2) - 1) = 2 ^ 32 - 2 ^ c.lenPow2 := by
      rw [Nat.mul_sub, ← hd, Nat.mul_one]
    have he : sub32 c.head c.tail = bs.length + 2 ^ c.lenPow2 * (2 ^ (32 - c.lenPow2) - 1) := by
      unfold sub32
      omega
    rw [he, Nat.add_mul_mod_self_left, Nat.mod_eq_of_lt hf]

theorem avail (h : c.Holds bs) : c.cbufSpaceAvail = 2 ^ c.lenPow2 - 1 - bs.length := by
  have hN := h.size_le
  have hf := h.fits
  have hu : modpow2 (sub32 c.head c.tail) c.lenPow2 = bs.length := h.used
  show sub32 (sub32 (valpow2 c.lenPow2) (modpow2 (sub32 c.head c.tail) c.lenPow2)) 1 = _
  rw [hu, valpow2_eq h.pow, sub32_of_le (a := 2 ^ c.lenPow2) (by lia) (by lia), sub32_of_le (by lia) (by lia)]
  lia

/-- one pass of `cbuf_write` stays in the free cells that come next, and writes something if it can -/
theorem writeLen (h : c.Holds bs) (rem : Nat) : c.writeLen rem ≤ rem ∧ c.head + c.writeLen rem ≤ 2 ^ c.lenPow2 ∧
      bs.length + c.writeLen rem < 2 ^ c.lenPow2 ∧
      (0 < rem → bs.length + 1 < 2 ^ c.lenPow2 → 0 < c.writeLen rem) := by
  have hN := h.size_le
  have hf := h.fits
  have ht := h.tail
  have hs := h.shape
  unfold Cbuf.writeLen
  rw [valpow2_eq h.pow]
  split
  · split
    · rw [sub32_of_le (a := 2 ^ c.lenPow2) (by omega) (by omega), sub32_of_le (by omega) (by omega)]
      omega
    · rw [sub32_of_le (by omega) (by omega)]
      omega
  · rw [sub32_of_le (a := c.tail) (by omega) (by omega), sub32_of_le (by omega) (by omega)]
    omega

/-- one pass of `cbuf_read` takes the oldest bytes in one piece, and takes something if it can -/
theorem readLen (h : c.Holds bs) (hne : bs ≠ []) {rem : Nat} (hr : 0 < rem) :
    0 < c.readLen rem ∧ c.readLen rem ≤ rem ∧ c.readLen rem ≤ bs.length ∧ c.tail + c.readLen rem ≤ 2 ^ c.lenPow2 := by
  have hN := h.size_le
  have hf := h.fits
  have ht := h.tail
  have hs := h.shape
  have hl := List.length_pos_iff.mpr hne
  unfold Cbuf.readLen
  rw [valpow2_eq h.pow]
  split
  · rw [sub32_of_le (by omega) (by omega)]
    omega
  · rw [sub32_of_le (by omega) (by omega)]
    omega

/-- bytes copied to `head` -/
theorem put (h : c.Holds bs) (f : Nat → UInt8) {n : Nat} (h1 : c.head + n ≤ 2 ^ c.lenPow2)
    (h2 : bs.length + n < 2 ^ c.lenPow2) :
    Holds { c with buf := Ring.put c.buf c.head f n, head := c.incPointer c.head n }
      (bs ++ Ring.slice f 0 n) := by
  have hN := h.size_le
  have hl : (bs ++ Ring.slice f 0 n).length = bs.length + n := by
    rw [List.length_append, Ring.slice_length]
  refine ⟨h.pow, by rw [hl]; exact h2, h.tail, ?_, ?_⟩
  · show c.incPointer c.head n = _
    rw [incPointer_eq c h.pow (by lia), hl, h.head, Nat.mod_add_mod, Nat.add_assoc]
  · show Ring.window (Ring.put c.buf c.head f n) _ c.tail _ = _
    rw [hl, h.head, Ring.window_put _ _ (by rw [← h.head]; exact h1) (by lia), h.bytes]

/-- bytes taken from `tail` -/
theorem take (h : c.Holds bs) {n : Nat} (h1 : n ≤ bs.length) :
    Holds { c with tail := c.incPointer c.tail n } (bs.drop n) := by
  have hN := h.size_le
  have hf := h.fits
  have ht := h.tail
  have hi : c.incPointer c.tail n = (c.tail + n) % 2 ^ c.lenPow2 := incPointer_eq c h.pow (by omega)
  refine ⟨h.pow, ?_, ?_, ?_, ?_⟩
  · rw [List.length_drop]
    exact Nat.lt_of_le_of_lt (Nat.sub_le _ _) h.fits
  · show c.incPointer c.tail n < _
    rw [hi]
    exact Nat.mod_lt _ (Nat.two_pow_pos _)
  · show c.head = (c.incPointer c.tail n + _) % _
    rw [hi, List.length_drop, Nat.mod_add_mod, Nat.add_assoc, Nat.add_sub_cancel' h1, h.head]
  · show Ring.window c.buf _ (c.incPointer c.tail n) _ = _
    rw [hi, List.length_drop, ← Ring.window_drop _ _ _ h1, h.bytes]

/-- the bytes that one pass reads -/
theorem oldest (h : c.Holds bs) {n : Nat} (h1 : n ≤ bs.length) (h2 : c.tail + n ≤ 2 ^ c.lenPow2) :
    Ring.slice c.buf c.tail n = bs.take n := by
  rw [← Ring.window_slice _ h2, ← Ring.window_take _ _ _ h1, h.bytes]

end Holds

/-! ## the loops -/

theorem fill_append (d : Nat → UInt8) (pos : Nat) (as bs : List UInt8) :
    ByteQueue.fill (ByteQueue.fill d pos as) (pos + as.length) bs = ByteQueue.fill d pos (as ++ bs) := by
  funext i
  unfold ByteQueue.fill
  rcases Nat.lt_or_ge i pos with h1 | h1
  · rw [if_neg (by lia), if_neg (by lia), if_neg (by lia)]
  · rw [if_pos h1, if_pos h1]
    rcases Nat.lt_or_ge i (pos + as.length) with h2 | h2
    · rw [if_neg (by lia), List.getD_append _ _ _ _ (by lia)]
    · rw [if_pos h2, List.getD_append_right _ _ _ _ (by lia), List.getD_eq_default as _ (by lia)]
      congr 1
      lia

theorem put_eq_fill (d : Nat → UInt8) (pos : Nat) (m : Nat → UInt8) (t n : Nat) :
    Ring.put d pos (fun i => m (t + i)) n = ByteQueue.fill d pos (Ring.slice m t n) := by
  funext i
  unfold Ring.put ByteQueue.fill
  rcases Nat.lt_or_ge i pos with h1 | h1
  · rw [if_neg (by omega), if_neg (by omega)]
  · rw [if_pos h1]
    split
    · rw [List.getD_eq_getElem _ _ (by rw [Ring.slice_length]; omega)]
      simp [Ring.slice]
    · rw [List.getD_eq_default _ _ (by rw [Ring.slice_length]; omega)]

theorem Holds.writeLoop (src : Nat → UInt8) (len : Nat) {c : Cbuf} {bs : List UInt8} (h : c.Holds bs) {pos : Nat}
    (hp : pos ≤ len) : (c.writeLoop src len pos).2 = pos + min (len - pos) (2 ^ c.lenPow2 - 1 - bs.length) ∧
      (c.writeLoop src len pos).1.Holds (bs ++ Ring.slice src pos (min (len - pos) (2 ^ c.lenPow2 - 1 - bs.length))) ∧
      (c.writeLoop src len pos).1.signaled = c.signaled ∧ (c.writeLoop src len pos).1.lenPow2 = c.lenPow2 := by
  have hf := h.fits
  rw [Cbuf.writeLoop]
  split
  · rename_i hc
    obtain ⟨hlt, hav⟩ := hc
    rw [h.avail] at hav
    obtain ⟨w1, w2, w3, w4⟩ := h.writeLen (len - pos)
    have hw := w4 (by lia) (by lia)
    rw [dif_neg hw.ne']
    -- the rest of the loop, with `n` bytes more in the buffer
    have hput := h.put (fun i => src (pos + i)) w2 w3
    have hsl : Ring.slice (fun i => src (pos + i)) 0 (c.writeLen (len - pos)) =
        Ring.slice src pos (c.writeLen (len - pos)) := Ring.slice_congr fun i _ => by rw [Nat.zero_add]
    rw [hsl] at hput
    obtain ⟨i1, i2, i3, i4⟩ := Holds.writeLoop src len hput
      (show pos + c.writeLen (len - pos) ≤ len by lia)
    have hm : c.writeLen (len - pos) + min (len - (pos + c.writeLen (len - pos)))
        (2 ^ c.lenPow2 - 1 - (bs ++ Ring.slice src pos (c.writeLen (len - pos))).length) =
          min (len - pos) (2 ^ c.lenPow2 - 1 - bs.length) := by
      rw [List.length_append, Ring.slice_length]
      lia
    refine ⟨?_, ?_, i3, i4⟩
    · rw [i1, Nat.add_assoc]
      exact congrArg (pos + ·) hm
    · rw [List.append_assoc, ← Ring.slice_add] at i2
      rw [← hm]
      exact i2
  · rename_i hc
    rw [h.avail] at hc
    have hm : min (len - pos) (2 ^ c.lenPow2 - 1 - bs.length) = 0 := by lia
    rw [hm, Ring.slice_zero, List.append_nil]
    exact ⟨rfl, h, rfl, rfl⟩
termination_by len - pos
decreasing_by lia

theorem Holds.readLoop (buflen : Nat) {c : Cbuf} {bs : List UInt8} (h : c.Holds bs) (dst : Option (Nat → UInt8))
    {pos : Nat} (hp : pos ≤ buflen) : ∃ c', c.readLoop dst buflen pos =
        some (c', dst.map fun d => ByteQueue.fill d pos (bs.take (buflen - pos)),
          pos + min (buflen - pos) bs.length) ∧
      c'.Holds (bs.drop (buflen - pos)) ∧ c'.signaled = c.signaled ∧ c'.lenPow2 = c.lenPow2 := by
  rw [Cbuf.readLoop]
  split
  · rename_i hc
    obtain ⟨hlt, hne⟩ := hc
    have hbs : bs ≠ [] := fun h0 => hne (h.head_eq_tail.mpr h0).symm
    obtain ⟨r1, r2, r3, r4⟩ := h.readLen hbs (show 0 < buflen - pos by omega)
    rw [dif_neg r1.ne']
    have htake := h.take r3
    obtain ⟨c', i1, i2, i3, i4⟩ := Holds.readLoop buflen htake
      (dst.map fun d => Ring.put d pos (fun i => c.buf (c.tail + i)) (c.readLen (buflen - pos)))
      (show pos + c.readLen (buflen - pos) ≤ buflen by omega)
    have hn : c.readLen (buflen - pos) + (buflen - (pos + c.readLen (buflen - pos))) = buflen - pos := by omega
    refine ⟨c', ?_, ?_, i3, i4⟩
    · show Cbuf.readLoop _ _ _ _ = _
      rw [i1, Option.map_map]
      congr 2
      congr 1
      · congr 1
        funext d
        show ByteQueue.fill (Ring.put d pos _ _) _ _ = _
        have hl : (bs.take (c.readLen (buflen - pos))).length = c.readLen (buflen - pos) := by
          rw [List.length_take, Nat.min_eq_left r3]
        rw [put_eq_fill, h.oldest r3 r4]
        nth_rewrite 2 [← hl]
        rw [fill_append, ← List.take_add, hn]
      · rw [List.length_drop]
        omega
    · rw [List.drop_drop, hn] at i2
      exact i2
  · rename_i hc
    have he : buflen - pos = 0 ∨ bs = [] := by
      rcases Nat.lt_or_ge pos buflen with h1 | h1
      · right
        by_contra h2
        exact hc ⟨h1, fun h3 => h2 (h.head_eq_tail.mp h3.symm)⟩
      · left
        omega
    have h1 : bs.take (buflen - pos) = [] := by rcases he with he | he <;> simp [he]
    have h2 : bs.drop (buflen - pos) = bs := by rcases he with he | he <;> simp [he]
    have h3 : min (buflen - pos) bs.length = 0 := by rcases he with he | he <;> simp [he]
    rw [h1, h2, h3]
    refine ⟨c, ?_, h, rfl, rfl⟩
    congr 2
    cases dst with
    | none => rfl
    | some d =>
      show _ = (some (ByteQueue.fill d pos []), pos)
      congr 2
      funext i
      unfold ByteQueue.fill
      split <;> rfl
termination_by buflen - pos
decreasing_by omega

/-! ## one turn -/

namespace Rep
variable {c : Cbuf} {q : ByteQueue}

theorem signaled_iff (h : c.Rep q) : c.signaled = true ↔ q.bytes ≠ [] := by
  rw [h.signaled]
  cases q.bytes <;> simp

theorem write (h : c.Rep q) (buf : Option (Nat → UInt8)) (len : Nat) :
    (c.cbufWrite buf len).2 = (q.push (Ring.slice (buf.getD fun _ => 0) 0 len)).2 ∧
      (c.cbufWrite buf len).1.Rep (q.push (Ring.slice (buf.getD fun _ => 0) 0 len)).1 := by
  obtain ⟨h1, h2, h3, h4⟩ := h.holds.writeLoop (buf.getD fun _ => 0) len (Nat.zero_le len)
  rw [Nat.zero_add, Nat.sub_zero] at h1
  rw [Nat.sub_zero] at h2
  have hfit : (Ring.slice (buf.getD fun _ => 0) 0 len).take (q.cap - q.bytes.length) =
      Ring.slice (buf.getD fun _ => 0) 0 (min len (2 ^ c.lenPow2 - 1 - q.bytes.length)) := by
    rw [Ring.slice_take, h.cap, Nat.min_comm]
  have h5 := h2.head_eq_tail
  unfold cbufWrite ByteQueue.push
  dsimp only
  rw [hfit, Ring.slice_length]
  split
  · rename_i hne
    refine ⟨h1, ⟨h2.pow, h2.fits, h2.tail, h2.head, h2.bytes⟩, ?_, ?_⟩
    · show q.cap = 2 ^ (Cbuf.writeLoop _ _ _ _).1.lenPow2 - 1
      rw [h4, h.cap]
    · show true = _
      have := mt h5.mpr hne
      simpa [List.isEmpty_iff] using this
  · rename_i he
    have he := not_not.mp he
    refine ⟨h1, h2, ?_, ?_⟩
    · show q.cap = _
      rw [h4, h.cap]
    · -- the queue was empty, and is
      have h6 := h5.mp he
      obtain ⟨h7, -⟩ := List.append_eq_nil_iff.mp h6
      rw [h3, h.signaled]
      dsimp only
      rw [h6, h7]

theorem writeChar (h : c.Rep q) (ch : UInt8) :
    (c.cbufWriteChar ch).2 = (q.push [ch]).2 ∧ (c.cbufWriteChar ch).1.Rep (q.push [ch]).1 := by
  have hcap := h.cap
  have hf := h.holds.fits
  have hs := h.holds.shape
  have ht := h.holds.tail
  unfold cbufWriteChar ByteQueue.push
  dsimp only
  rw [h.holds.avail]
  split
  · rename_i hav
    have hroom : c.head + 1 ≤ 2 ^ c.lenPow2 := by
      rcases hs with ⟨-, h1⟩ | ⟨-, h1⟩ <;> omega
    have hput := h.holds.put (fun _ => ch) hroom (by omega)
    have hu : Ring.put c.buf c.head (fun _ => ch) 1 = Function.update c.buf c.head ch := by
      funext i
      unfold Ring.put
      rw [Function.update_apply]
      split <;> split <;> first | rfl | omega
    rw [hu] at hput
    have hfit : [ch].take (q.cap - q.bytes.length) = [ch] :=
      List.take_of_length_le (by rw [List.length_singleton]; omega)
    have hne : c.incPointer c.head 1 ≠ c.tail := fun he => by
      have := hput.head_eq_tail.mp he
      simp [Ring.slice] at this
    rw [hfit, if_pos hne]
    exact ⟨rfl, ⟨hput.pow, hput.fits, hput.tail, hput.head, hput.bytes⟩, hcap, by simp⟩
  · rename_i hav
    have h0 : q.cap - q.bytes.length = 0 := by omega
    rw [h0, List.take_zero, List.append_nil]
    exact ⟨rfl, h⟩

theorem read (h : c.Rep q) (dst : Option (Nat → UInt8)) (buflen : Nat) : ∃ c', c.cbufRead dst buflen =
        some (c', dst.map fun d => ByteQueue.fill d 0 (q.pop buflen).2, (q.pop buflen).2.length) ∧
      c'.Rep (q.pop buflen).1 := by
  unfold cbufRead
  split
  · obtain ⟨c', h1, h2, h3, h4⟩ := h.holds.readLoop buflen dst (Nat.zero_le buflen)
    rw [Nat.sub_zero] at h1 h2
    have h5 := h2.head_eq_tail
    rw [h1, Option.map_some, Nat.zero_add]
    unfold ByteQueue.pop
    dsimp only
    rw [List.length_take]
    split
    · rename_i he
      refine ⟨_, rfl, ⟨h2.pow, h2.fits, h2.tail, h2.head, h2.bytes⟩, by rw [h.cap]; exact congrArg (2 ^ · - 1) h4.symm, ?_⟩
      show false = _
      rw [h5.mp he.symm]
      rfl
    · rename_i hne
      refine ⟨_, rfl, h2, by rw [h.cap, h4], ?_⟩
      rw [h3, h.signaled]
      have h6 : q.bytes.drop buflen ≠ [] := fun h7 => hne (h5.mpr h7).symm
      have h7 : q.bytes ≠ [] := fun h8 => h6 (by rw [h8, List.drop_nil])
      rw [List.isEmpty_eq_false_iff.mpr h6, List.isEmpty_eq_false_iff.mpr h7]
  · rename_i he
    have hq := h.holds.head_eq_tail.mp (not_not.mp he).symm
    refine ⟨c, ?_, ?_⟩
    · unfold ByteQueue.pop
      dsimp only
      rw [hq, List.take_nil]
      cases dst with
      | none => rfl
      | some d =>
        have hd : ByteQueue.fill d 0 [] = d := by
          funext i
          unfold ByteQueue.fill
          split <;> rfl
        rw [Option.map_some, hd]
        rfl
    · unfold ByteQueue.pop
      rw [hq, List.drop_nil, ← hq]
      exact h

theorem readChar (h : c.Rep q) (ch : UInt8) :
    (c.cbufReadChar ch).2.2 = (q.pop 1).2.length ∧ (c.cbufReadChar ch).2.1 = (q.pop 1).2.headD ch ∧
      (c.cbufReadChar ch).1.Rep (q.pop 1).1 := by
  have hq := h.holds.head_eq_tail
  unfold cbufReadChar
  split
  · rename_i hne
    have hbs : q.bytes ≠ [] := fun h0 => hne (hq.mpr h0).symm
    have hl := List.length_pos_iff.mpr hbs
    have htake := h.holds.take hl
    have hold := h.holds.oldest (n := 1) hl h.holds.tail
    have hslice : Ring.slice c.buf c.tail 1 = [c.buf c.tail] := rfl
    rw [hslice] at hold
    have h5 := htake.head_eq_tail
    unfold ByteQueue.pop
    dsimp only
    rw [← hold]
    refine ⟨rfl, rfl, ?_⟩
    split
    · rename_i he
      refine ⟨⟨htake.pow, htake.fits, htake.tail, htake.head, htake.bytes⟩, h.cap, ?_⟩
      show false = !(q.bytes.drop 1).isEmpty
      rw [h5.mp he.symm]
      rfl
    · rename_i hne'
      refine ⟨htake, h.cap, ?_⟩
      have h6 : q.bytes.drop 1 ≠ [] := fun h7 => hne' (h5.mpr h7).symm
      show c.signaled = !(q.bytes.drop 1).isEmpty
      rw [h.signaled, List.isEmpty_eq_false_iff.mpr h6, List.isEmpty_eq_false_iff.mpr hbs]
  · rename_i he
    have hq := hq.mp (not_not.mp he).symm
    unfold ByteQueue.pop
    refine ⟨by rw [hq]; rfl, by rw [hq]; rfl, ?_⟩
    show c.Rep ⟨q.cap, q.bytes.drop 1⟩
    rw [hq, List.drop_nil, ← hq]
    exact h

theorem reset (h : c.Rep q) : ∃ c', c.cbufReset = some c' ∧ c'.Rep { q with bytes := [] } := by
  have hf := h.holds.fits
  obtain ⟨c', h1, h2⟩ := h.read none c.cbufSize
  have hs : c.cbufSize = 2 ^ c.lenPow2 := by
    rw [cbufSize, shl1, Nat.mod_eq_of_lt (by have := h.holds.pow; lia)]
  unfold ByteQueue.pop at h2
  dsimp only at h2
  rw [hs, List.drop_of_length_le (by lia)] at h2
  refine ⟨c', ?_, h2⟩
  rw [cbufReset, h1]
  rfl

theorem peek (h : c.Rep q) :
    c.cbufPeek.1 = q.bytes.length ∧ c.iovBytes c.cbufPeek.2.1 ++ c.iovBytes c.cbufPeek.2.2 = q.bytes := by
  have hN := h.holds.size_le
  have hf := h.holds.fits
  have ht := h.holds.tail
  have hs : c.cbufSize = 2 ^ c.lenPow2 := by
    rw [cbufSize, shl1, Nat.mod_eq_of_lt (by have := h.holds.pow; omega)]
  have hb := h.holds.bytes
  unfold cbufPeek
  dsimp only
  rw [h.holds.used, hs, add64_of_lt (by omega)]
  split
  · rename_i hgt
    rw [sub64_of_le (by omega) (by omega), sub64_of_le (by omega) (by omega), if_pos (by omega)]
    refine ⟨rfl, ?_⟩
    -- up to the end of the buffer, then from its start
    have hl : q.bytes.length = 2 ^ c.lenPow2 - c.tail + (q.bytes.length - (2 ^ c.lenPow2 - c.tail)) := by omega
    rw [hl, Ring.window_add, Ring.window_slice _ (by omega), Nat.add_sub_cancel' ht.le, Nat.mod_self,
      Ring.window_slice _ (by omega)] at hb
    exact hb
  · rename_i hle
    refine ⟨rfl, ?_⟩
    rw [Ring.window_slice _ (by omega)] at hb
    split
    · exact (List.append_nil _).trans hb
    · rename_i h0
      rw [List.length_eq_zero_iff.mp (not_not.mp h0)]
      rfl

/-- **A call on a buffer is the call on its queue.** -/
theorem perform (h : c.Rep q) (call : Call) :
    ∃ c' q' a, c.perform call = some (c', a) ∧ q.perform call = some (q', a) ∧ c'.Rep q' ∧ q'.cap = q.cap := by
  cases call with
  | write buf len =>
    obtain ⟨h1, h2⟩ := h.write buf len
    refine ⟨_, _, .count (c.cbufWrite buf len).2, rfl, ?_, h2, rfl⟩
    rw [h1]
    rfl
  | writeChar ch =>
    obtain ⟨h1, h2⟩ := h.writeChar ch
    refine ⟨_, _, .count (c.cbufWriteChar ch).2, rfl, ?_, h2, rfl⟩
    rw [h1]
    rfl
  | read dst buflen block =>
    obtain ⟨c', h1, h2⟩ := h.read dst buflen
    refine ⟨c', _, _, ?_, rfl, h2, rfl⟩
    rw [Cbuf.perform, h1]
    rfl
  | readChar ch block =>
    obtain ⟨h1, h2, h3⟩ := h.readChar ch
    refine ⟨_, _, .char (c.cbufReadChar ch).2.2 (c.cbufReadChar ch).2.1, rfl, ?_, h3, rfl⟩
    rw [h1, h2]
    rfl
  | peek =>
    obtain ⟨h1, h2⟩ := h.peek
    refine ⟨c, q, .peeked q.bytes.length q.bytes, ?_, rfl, h, rfl⟩
    rw [Cbuf.perform, h1, h2]
  | reset =>
    obtain ⟨c', h1, h2⟩ := h.reset
    refine ⟨c', _, .done, ?_, rfl, h2, rfl⟩
    rw [Cbuf.perform, h1]
    rfl

end Rep

theorem rep_init (len : Nat) (buf : Nat → UInt8) :
    (cbufInitializeEtc len buf).Rep ⟨2 ^ (cbufInitializeEtc len buf).lenPow2 - 1, []⟩ := by
  have hp : (cbufInitializeEtc len buf).lenPow2 < 32 := log2Uint_lt (Nat.mod_lt _ (by decide))
  exact ⟨⟨hp, Nat.two_pow_pos _, Nat.two_pow_pos _, (Nat.zero_mod _).symm, rfl⟩, rfl, rfl⟩

/-! ## runs -/

/-- threads on a buffer and threads on its queue: the same waits and the same answers -/
structure SysRep (cap : Nat) (s : System Cbuf) (a : System ByteQueue) : Prop where
  obj : s.obj.Rep a.obj
  cap : a.obj.cap = cap
  blocked : s.blocked = a.blocked
  log : s.log = a.log

namespace SysRep
variable {cap : Nat} {s : System Cbuf} {a : System ByteQueue}

theorem turn (h : SysRep cap s a) (t : Nat) (call : Call) :
    ∃ s' a', s.turn Cbuf.perform t call = some s' ∧ a.turn ByteQueue.perform t call = some a' ∧ SysRep cap s' a' := by
  obtain ⟨c', q', ans, h1, h2, h3, h4⟩ := h.obj.perform call
  unfold System.turn
  rw [h1, h2, Option.map_some, Option.map_some, h.blocked, h.log]
  refine ⟨_, _, rfl, rfl, ?_⟩
  split
  · exact ⟨h3, h4.trans h.cap, rfl, rfl⟩
  · exact ⟨h3, h4.trans h.cap, rfl, rfl⟩

theorem step (h : SysRep cap s a) (e : Event) :
    ∃ s' a', s.step Cbuf.perform e = some s' ∧ a.step ByteQueue.perform e = some a' ∧ SysRep cap s' a' := by
  have hb := h.blocked
  cases e with
  | call t call =>
    simp only [System.step, hb]
    split
    · exact ⟨s, a, rfl, rfl, h⟩
    · split
      · exact ⟨_, _, rfl, rfl, h.obj, h.cap, rfl, h.log⟩
      · exact h.turn t call
  | retry t =>
    simp only [System.step, hb]
    cases a.blocked t with
    | none => exact ⟨s, a, rfl, rfl, h⟩
    | some call => exact h.turn t call

theorem run (h : SysRep cap s a) (es : List Event) :
    ∃ s' a', s.run Cbuf.perform es = some s' ∧ a.run ByteQueue.perform es = some a' ∧ SysRep cap s' a' := by
  induction es generalizing s a with
  | nil => exact ⟨s, a, rfl, rfl, h⟩
  | cons e es ih =>
    obtain ⟨s', a', h1, h2, h3⟩ := h.step e
    rw [System.run, System.run, h1, h2]
    exact ih h3

end SysRep

/-- What can be asked of a buffer at any moment, and what a queue says: the space and the bytes in it, the
regions peeked at, and the event. -/
structure Shows (c : Cbuf) (q : ByteQueue) : Prop where
  used : c.cbufSpaceUsed = q.bytes.length
  avail : c.cbufSpaceAvail = q.cap - q.bytes.length
  sum : c.cbufSpaceAvail + c.cbufSpaceUsed = q.cap
  peeked : c.iovBytes c.cbufPeek.2.1 ++ c.iovBytes c.cbufPeek.2.2 = q.bytes
  signaled : c.signaled = true ↔ q.bytes ≠ []

theorem Rep.shows {c : Cbuf} {q : ByteQueue} (h : c.Rep q) : c.Shows q := by
  have hf := h.holds.fits
  have hu := h.holds.used
  have ha := h.holds.avail
  have hc := h.cap
  exact ⟨hu, by omega, by omega, h.peek.2, h.signaled_iff⟩

end Cbuf

end LkHv
