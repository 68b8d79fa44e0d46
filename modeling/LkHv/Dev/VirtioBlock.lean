import LkHv.Dev.Vring
import LkHv.Kernel.Pmm

/-!
# Scatter-gather in the virtio block driver (`dev/virtio/block/virtio-block.c`)

A transfer is a chain of a request header, descriptors for the buffer and a response byte.  The buffer is walked
page by page; a page that lies where the walk expects it extends the descriptor before it.  The expected address
starts behind the first page and goes up by a page at a time, also behind a break.

* `virtioBlockReadWrite`    the function, up to the kick and from the end of the wait on;
* `segments`                the addresses and lengths of the descriptors for the buffer;
* `segments_cover`          they cover the buffer if each page at the expected address follows the one before it;
* `readWrite_right_iff`     so that, and enough free descriptors, is what the driver gets right.
-/

namespace LkHv.VirtioBlock
open Vring

def VIRTIO_BLK_T_IN : Nat := 0
def VIRTIO_BLK_T_OUT : Nat := 1

/-- `vaddr_to_paddr`, the pages being mapped to any frames -/
def vaddrToPaddr (frame : Nat → Nat) (va : Nat) : Nat := frame (va / PAGE_SIZE) * PAGE_SIZE + va % PAGE_SIZE

/-- `PAGE_ALIGN` -/
def pageAlign (x : Nat) : Nat := roundup64 x PAGE_SIZE

/-- a ring with the addresses and lengths of its descriptors -/
structure BlockRing extends Vring where
  addr : Nat → Nat
  len : Nat → Nat

/-- what a descriptor tells the device -/
structure Entry where
  addr : Nat
  len : Nat
  flags : Nat
deriving DecidableEq

/-- `struct virtio_block_dev`, and its request -/
structure BlockDev where
  ring : BlockRing
  locked : Bool
  type : Nat
  ioprio : Nat
  sector : Nat
  blkReqPhys : Nat
  blkResponsePhys : Nat

namespace BlockRing

def entry (r : BlockRing) (i : Nat) : Entry := ⟨r.addr i, r.len i, (r.desc i).flags⟩

/-- the chain of a head, as the device reads it -/
def chainOf (r : BlockRing) (head : Nat) : List Entry := (r.chainFrom r.num head).map r.entry

/-- a descriptor filled in; it keeps its link -/
def put (r : BlockRing) (d : Nat) (e : Entry) : BlockRing :=
  { r with
    desc := Function.update r.desc d { r.desc d with flags := e.flags }
    addr := Function.update r.addr d e.addr
    len := Function.update r.len d e.len }

end BlockRing

/-- the flags of a descriptor for the buffer -/
def dataFlags (write : Bool) : Nat := (if write then 0 else VRING_DESC_F_WRITE) ||| VRING_DESC_F_NEXT

/-- where the walk over the buffer is: the page, the physical address expected for the next one, the bytes left -/
structure Walk where
  va : Nat
  nextPa : Nat
  len : Nat

/-- `len_tohandle` -/
def Walk.take (w : Walk) : Nat := min w.len PAGE_SIZE

def Walk.next (w : Walk) : Walk := ⟨pageAlign (add64 w.va 1), add64 w.nextPa PAGE_SIZE, w.len - w.take⟩

/-- the variables of the loop -/
structure Gather extends Walk where
  ring : BlockRing
  desc : Nat

/-- a pass of the loop; `none` without a free descriptor -/
def gatherPass (frame : Nat → Nat) (write : Bool) (g : Gather) : Option Gather :=
  let pa := vaddrToPaddr frame g.next.va
  if g.nextPa = pa then
    let lens := Function.update g.ring.len g.desc ((g.ring.len g.desc + g.take) % 2 ^ 32)
    some ⟨g.next, { g.ring with len := lens }, g.desc⟩
  else
    let nextI := (virtioAllocDesc g.ring.toVring).1
    (spliceDesc g.ring.toVring g.desc write).map fun r =>
      ⟨g.next, ⟨r, Function.update g.ring.addr nextI pa, Function.update g.ring.len nextI g.take⟩, nextI⟩

/-- the loop `while (len > 0)`; a pass takes a byte at least -/
def gather (frame : Nat → Nat) (write : Bool) : Nat → Gather → Option Gather
  | 0, g => some g
  | n + 1, g => if g.len = 0 then some g else (gatherPass frame write g).bind (gather frame write n)

/-- the ring at the kick with the head submitted, and the device and the value at the return; `wait` is what becomes
of the ring until the transfer is complete.  `none` if a descriptor was `NULL`. -/
def virtioBlockReadWrite (frame : Nat → Nat) (wait : BlockRing → BlockRing) (dev : BlockDev) (buf offset len : Nat)
    (write : Bool) : Option ((BlockRing × Nat) × BlockDev × Nat) :=
  let dev := { dev with
    locked := true
    type := if write then VIRTIO_BLK_T_OUT else VIRTIO_BLK_T_IN
    ioprio := 0
    sector := offset / 512 }
  match virtioAllocDescChain dev.ring.toVring 3 with
  | (none, _) => none
  | (some i, r) =>
    let ring : BlockRing := { dev.ring with toVring := r }
    let ring := ring.put i ⟨dev.blkReqPhys, 16, (ring.desc i).flags ||| VRING_DESC_F_NEXT⟩
    let desc := (ring.desc i).next
    let pa := vaddrToPaddr frame buf
    let nextPa := pageAlign (add64 pa 1)
    let first := min (sub64 nextPa pa) len
    let ring := ring.put desc ⟨pa, first, (ring.desc desc).flags ||| dataFlags write⟩
    (gather frame write (len - first) ⟨⟨buf, nextPa, len - first⟩, ring, desc⟩).map fun g =>
      let ring := g.ring.put (g.ring.desc g.desc).next ⟨dev.blkResponsePhys, 1, VRING_DESC_F_WRITE⟩
      let ring := { ring with toVring := virtioSubmitChain ring.toVring i }
      ((ring, i), { dev with ring := wait ring, locked := false }, g.len)

/-! ## the buffer -/

/-- the descriptors for the buffer, `cur` the one the loop is at -/
def segments (frame : Nat → Nat) : Nat → Walk → Nat × Nat → List (Nat × Nat)
  | 0, _, cur => [cur]
  | n + 1, w, cur =>
    if w.len = 0 then [cur]
    else if w.nextPa = vaddrToPaddr frame w.next.va then
      segments frame n w.next (cur.1, (cur.2 + w.take) % 2 ^ 32)
    else cur :: segments frame n w.next (vaddrToPaddr frame w.next.va, w.take)

/-- the bytes of a segment -/
def bytes (s : Nat × Nat) : List Nat := List.range' s.1 s.2

/-- the physical bytes of the buffer -/
def bufferBytes (frame : Nat → Nat) (va len : Nat) : List Nat :=
  (List.range len).map fun i => vaddrToPaddr frame (va + i)

section
variable {frame : Nat → Nat} {n pg k off total : Nat} {w : Walk} {cur : Nat × Nat}

theorem bytes_length (s : Nat × Nat) : (bytes s).length = s.2 := List.length_range'

/-- the bytes of one page, up to its end -/
theorem bufferBytes_page {q o t : Nat} (h : o + t ≤ PAGE_SIZE) :
    bufferBytes frame (q * PAGE_SIZE + o) t = bytes (frame q * PAGE_SIZE + o, t) := by
  unfold bufferBytes bytes PAGE_SIZE at *
  rw [List.range_eq_range', List.map_congr_left (g := fun i => frame q * 4096 + o + i), List.map_add_range', Nat.add_zero]
  intro i hi
  have hlt := (List.mem_range'_1.mp hi).2
  unfold vaddrToPaddr PAGE_SIZE
  rw [show (q * 4096 + o + i) / 4096 = q by omega, show (q * 4096 + o + i) % 4096 = o + i by omega, Nat.add_assoc]

theorem bufferBytes_add (va a b : Nat) :
    bufferBytes frame va (a + b) = bufferBytes frame va a ++ bufferBytes frame (va + a) b := by
  unfold bufferBytes
  rw [List.range_add, List.map_append, List.map_map]
  refine congrArg _ (List.map_congr_left fun i _ => ?_)
  rw [Function.comp, Nat.add_assoc]

/-- the bytes up to the end of a page first -/
theorem bufferBytes_split (q o len : Nat) (h : o ≤ PAGE_SIZE) : bufferBytes frame (q * PAGE_SIZE + o) len =
    bytes (frame q * PAGE_SIZE + o, min (PAGE_SIZE - o) len) ++
      bufferBytes frame ((q + 1) * PAGE_SIZE) (len - min (PAGE_SIZE - o) len) := by
  have hsum : len = min (PAGE_SIZE - o) len + (len - min (PAGE_SIZE - o) len) := by omega
  have hnil : ∀ va, bufferBytes frame va 0 = [] := fun _ => rfl
  conv_lhs => rw [hsum, bufferBytes_add, bufferBytes_page (by omega)]
  refine congrArg _ ?_
  by_cases h0 : len - min (PAGE_SIZE - o) len = 0
  · rw [h0, hnil, hnil]
  · rw [Nat.succ_mul]
    exact congrArg (bufferBytes frame · _) (by omega)

/-- the walk is at page `k` of the buffer -/
structure At (frame : Nat → Nat) (pg k : Nat) (w : Walk) : Prop where
  va : w.va / PAGE_SIZE = pg + k
  nextPa : w.nextPa = (frame pg + k + 1) * PAGE_SIZE
  frame : frame pg < 2 ^ 40
  top : (pg + (k + 1)) * PAGE_SIZE + w.len ≤ 2 ^ 64
  small : k * PAGE_SIZE + w.len ≤ 2 ^ 63 + PAGE_SIZE

theorem At.next_va (h : At frame pg k w) (h0 : w.len ≠ 0) : w.next.va = (pg + (k + 1)) * PAGE_SIZE := by
  have h1 := h.va
  have h2 := h.top
  unfold Walk.next pageAlign roundup64 add64 PAGE_SIZE at *
  dsimp only
  omega

theorem At.next (h : At frame pg k w) (h0 : w.len ≠ 0) : At frame pg (k + 1) w.next := by
  have hva := h.next_va h0
  obtain ⟨-, h2, h3, h4, h5⟩ := h
  refine ⟨?_, ?_, h3, ?_, ?_⟩
  · rw [hva]
    exact Nat.mul_div_cancel _ (by decide)
  all_goals
    unfold Walk.next Walk.take PAGE_SIZE at *
    dsimp only
    try unfold add64
    lia

/-- a pass, in pages -/
theorem segments_page (h : At frame pg k w) (h0 : w.len ≠ 0) : segments frame (n + 1) w cur =
    if frame (pg + (k + 1)) = frame pg + (k + 1) then segments frame n w.next (cur.1, (cur.2 + w.take) % 2 ^ 32)
    else cur :: segments frame n w.next (frame (pg + (k + 1)) * PAGE_SIZE, w.take) := by
  have hpa : vaddrToPaddr frame w.next.va = frame (pg + (k + 1)) * PAGE_SIZE := by
    rw [h.next_va h0]
    unfold vaddrToPaddr PAGE_SIZE
    rw [Nat.mul_div_cancel _ (by decide), Nat.mul_mod_left, Nat.add_zero]
  have hiff : w.nextPa = frame (pg + (k + 1)) * PAGE_SIZE ↔ frame (pg + (k + 1)) = frame pg + (k + 1) := by
    rw [h.nextPa]
    unfold PAGE_SIZE
    omega
  rw [segments, if_neg h0, hpa]
  simp only [hiff]

theorem Walk.next_len_le (h : w.len ≤ n + 1) : w.next.len ≤ n := by
  unfold Walk.next Walk.take PAGE_SIZE
  dsimp only
  omega

/-- no more bytes than the buffer has, and if as many, then those of the first descriptor first -/
theorem segments_length : ∀ {n : Nat} {w : Walk} {cur : Nat × Nat},
    ((segments frame n w cur).flatMap bytes).length ≤ cur.2 + w.len ∧
      (((segments frame n w cur).flatMap bytes).length = cur.2 + w.len →
        bytes cur <+: (segments frame n w cur).flatMap bytes) := by
  intro n
  induction n with
  | zero =>
    intro w cur
    rw [segments, List.flatMap_singleton, bytes_length]
    exact ⟨Nat.le_add_right _ _, fun _ => List.prefix_refl _⟩
  | succ n ih =>
    intro w cur
    have hle : w.take + w.next.len = w.len := by
      unfold Walk.next Walk.take
      dsimp only
      omega
    rw [segments]
    split
    · rw [List.flatMap_singleton, bytes_length]
      exact ⟨Nat.le_add_right _ _, fun _ => List.prefix_refl _⟩
    split
    · have hmod := Nat.mod_le (cur.2 + w.take) (2 ^ 32)
      obtain ⟨h1, h2⟩ := @ih w.next (cur.1, (cur.2 + w.take) % 2 ^ 32)
      dsimp only at h1 h2
      refine ⟨by omega, fun h => List.IsPrefix.trans ?_ (h2 (by omega))⟩
      rw [show (cur.2 + w.take) % 2 ^ 32 = cur.2 + w.take by omega, bytes, bytes, ← List.range'_append_1]
      exact List.prefix_append _ _
    · obtain ⟨h1, -⟩ := @ih w.next (vaddrToPaddr frame w.next.va, w.take)
      rw [List.flatMap_cons, List.length_append, bytes_length]
      exact ⟨by dsimp only at h1; omega, fun _ => List.prefix_append _ _⟩

theorem segments_pos : ∀ {n : Nat} {w : Walk} {cur : Nat × Nat}, 0 < (segments frame n w cur).length := by
  intro n
  induction n with
  | zero => exact fun {_ _} => Nat.zero_lt_one
  | succ n ih =>
    intro w cur
    rw [segments]
    split
    · exact Nat.zero_lt_one
    split
    · exact ih
    · exact Nat.succ_pos _

/-- how many pages `len` bytes from the start of a page are on -/
def pagesOf (len : Nat) : Nat := (len + (PAGE_SIZE - 1)) / PAGE_SIZE

/-- **A descriptor more for each page that is not at the expected address** -/
theorem segments_count : ∀ {n k : Nat} {w : Walk} {cur : Nat × Nat}, At frame pg k w → w.len ≤ n →
    (segments frame n w cur).length =
      1 + (List.range' (k + 1) (pagesOf w.len)).countP fun j => frame (pg + j) ≠ frame pg + j := by
  intro n
  induction n with
  | zero =>
    intro k w cur _ hn
    rw [Nat.le_zero.mp hn]
    rfl
  | succ n ih =>
    intro k w cur h hn
    by_cases h0 : w.len = 0
    · rw [segments, if_pos h0, h0]
      rfl
    · have hpages : pagesOf w.len = pagesOf w.next.len + 1 := by
        unfold Walk.next Walk.take pagesOf PAGE_SIZE
        dsimp only
        omega
      rw [segments_page h h0, hpages, List.range'_succ, List.countP_cons]
      by_cases hm : frame (pg + (k + 1)) = frame pg + (k + 1)
      · rw [if_pos hm, ih (h.next h0) (Walk.next_len_le hn), if_neg (by simpa using hm)]
        rfl
      · rw [if_neg hm, List.length_cons, ih (h.next h0) (Walk.next_len_le hn), if_pos (by simpa using hm)]
        omega

/-- **What the walk gets right**: a page at the expected address lies behind the page before it, and the bytes up to
its end fit in the length of a descriptor. -/
def InStep (frame : Nat → Nat) (pg off total j : Nat) : Prop :=
  frame (pg + j) = frame pg + j →
    frame (pg + (j - 1)) = frame pg + (j - 1) ∧ min ((j + 1) * PAGE_SIZE - off) total < 2 ^ 32

/-- the descriptor the walk is at reaches to the end of page `k`; `w.len` bytes of the buffer are behind it -/
structure Reaches (frame : Nat → Nat) (pg k off total : Nat) (w : Walk) (cur : Nat × Nat) : Prop where
  len : w.len = off + total - (k + 1) * PAGE_SIZE
  stop : w.len ≠ 0 → cur.1 + cur.2 = (frame (pg + k) + 1) * PAGE_SIZE
  first : w.len ≠ 0 → frame (pg + k) = frame pg + k → cur.2 + off = (k + 1) * PAGE_SIZE

theorem Reaches.sum (h : Reaches frame pg k off total w cur) (h0 : w.len ≠ 0) (hk : frame (pg + k) = frame pg + k) :
    cur.2 + w.take = min ((k + 1 + 1) * PAGE_SIZE - off) total := by
  have h1 := h.first h0 hk
  have h2 := h.len
  unfold Walk.take PAGE_SIZE at *
  omega

theorem Reaches.done (h : Reaches frame pg k off total w cur) (h0 : w.len = 0) :
    ∀ j, k < j → j * PAGE_SIZE < off + total → InStep frame pg off total j := by
  intro j hj hlt
  have h1 := h.len
  have := Nat.mul_le_mul_right PAGE_SIZE (show k + 1 ≤ j from hj)
  omega

theorem Reaches.next_len (h : Reaches frame pg k off total w cur) :
    w.next.len = off + total - (k + 1 + 1) * PAGE_SIZE := by
  have h2 := h.len
  unfold Walk.next Walk.take PAGE_SIZE at *
  dsimp only
  omega

theorem Walk.take_of_next (h : w.next.len ≠ 0) : w.take = PAGE_SIZE := by
  unfold Walk.next Walk.take at *
  dsimp only at h
  omega

theorem Reaches.extend (h : Reaches frame pg k off total w cur) (h0 : w.len ≠ 0)
    (hk : frame (pg + k) = frame pg + k) (hm : frame (pg + (k + 1)) = frame pg + (k + 1)) :
    Reaches frame pg (k + 1) off total w.next (cur.1, cur.2 + w.take) := by
  have h1 := h.first h0 hk
  have h2 := h.stop h0
  rw [hk] at h2
  refine ⟨h.next_len, fun hne => ?_, fun hne _ => ?_⟩
  · rw [hm, Walk.take_of_next hne]
    unfold PAGE_SIZE at *
    dsimp only
    omega
  · rw [Walk.take_of_next hne]
    unfold PAGE_SIZE at *
    dsimp only
    omega

theorem range'_prefix {a b t : Nat} {l : List Nat} (ht : 0 < t) (h : List.range' a t <+: List.range' b t ++ l) : a = b := by
  obtain ⟨m, rfl⟩ := Nat.exists_eq_add_of_lt ht
  rw [Nat.zero_add, List.range'_succ, List.range'_succ, List.cons_append] at h
  exact (List.cons_prefix_cons.mp h).1

/-- a page that extends the descriptor is in step if the descriptors cover the buffer -/
theorem inStep_of_cover {rest : List Nat} (hr : Reaches frame pg k off total w cur) (h0 : w.len ≠ 0)
    (hm : frame (pg + (k + 1)) = frame pg + (k + 1)) (hrest : rest.length = w.next.len)
    (e : (segments frame n w.next (cur.1, (cur.2 + w.take) % 2 ^ 32)).flatMap bytes =
      bytes cur ++ (bytes (frame (pg + (k + 1)) * PAGE_SIZE, w.take) ++ rest)) : InStep frame pg off total (k + 1) := by
  intro _
  obtain ⟨h1, h2⟩ := @segments_length frame n w.next (cur.1, (cur.2 + w.take) % 2 ^ 32)
  rw [e] at h1 h2
  simp only [List.length_append, bytes_length, hrest] at h1 h2
  have hmod := Nat.mod_le (cur.2 + w.take) (2 ^ 32)
  have hno : (cur.2 + w.take) % 2 ^ 32 = cur.2 + w.take := by omega
  have hpre := h2 (by omega)
  rw [hno, bytes, ← List.range'_append_1, bytes, List.prefix_append_right_inj] at hpre
  have hk := range'_prefix (by unfold Walk.take PAGE_SIZE; omega) hpre
  rw [hr.stop h0, hm] at hk
  have hk := Nat.mul_right_cancel (show 0 < PAGE_SIZE by decide) hk
  have hk : frame (pg + k) = frame pg + k := by omega
  refine ⟨hk, ?_⟩
  rw [← hr.sum h0 hk, ← hno]
  exact Nat.mod_lt _ (by decide)

/-- a page in step extends the descriptor -/
theorem cover_extend {P : Prop} {l rest : List Nat} (hr : Reaches frame pg k off total w cur) (h0 : w.len ≠ 0)
    (hm : frame (pg + (k + 1)) = frame pg + (k + 1)) (hin : InStep frame pg off total (k + 1))
    (ih : Reaches frame pg (k + 1) off total w.next (cur.1, (cur.2 + w.take) % 2 ^ 32) →
      (l = bytes (cur.1, (cur.2 + w.take) % 2 ^ 32) ++ rest ↔ P)) :
    l = bytes cur ++ (bytes (frame (pg + (k + 1)) * PAGE_SIZE, w.take) ++ rest) ↔ P := by
  obtain ⟨hk, hlt⟩ := hin hm
  rw [Nat.add_sub_cancel] at hk
  rw [← hr.sum h0 hk] at hlt
  rw [Nat.mod_eq_of_lt hlt] at ih
  rw [← ih (hr.extend h0 hk hm), ← List.append_assoc, bytes, bytes, bytes, ← List.range'_append_1, hr.stop h0, hk, hm,
    Nat.add_assoc]

/-- **The descriptors cover the buffer** exactly if the pages are in step. -/
theorem segments_cover : ∀ {n k : Nat} {w : Walk} {cur : Nat × Nat}, At frame pg k w → w.len ≤ n →
    Reaches frame pg k off total w cur →
    ((segments frame n w cur).flatMap bytes = bytes cur ++ bufferBytes frame ((pg + (k + 1)) * PAGE_SIZE) w.len ↔
      ∀ j, k < j → j * PAGE_SIZE < off + total → InStep frame pg off total j) := by
  intro n
  induction n with
  | zero =>
    intro k w cur _ hn hr
    rw [segments, Nat.le_zero.mp hn, List.flatMap_singleton]
    exact iff_of_true (List.append_nil _).symm (hr.done (Nat.le_zero.mp hn))
  | succ n ih =>
    intro k w cur h hn hr
    by_cases h0 : w.len = 0
    · rw [segments, if_pos h0, h0, List.flatMap_singleton]
      exact iff_of_true (List.append_nil _).symm (hr.done h0)
    · -- the page is the first of those behind `k`
      have hsplit : (∀ j, k < j → j * PAGE_SIZE < off + total → InStep frame pg off total j) ↔
          InStep frame pg off total (k + 1) ∧
            ∀ j, k + 1 < j → j * PAGE_SIZE < off + total → InStep frame pg off total j := by
        have h1 := hr.len
        constructor
        · exact fun hj => ⟨hj _ (Nat.lt_succ_self k) (by omega), fun j h1 => hj j (by omega)⟩
        · rintro ⟨h1, h2⟩ j hj hlt
          rcases Nat.eq_or_lt_of_le (Nat.succ_le_of_lt hj) with rfl | hj'
          · exact h1
          · exact h2 j hj' hlt
      have hnext := @bufferBytes_split frame (pg + (k + 1)) 0 w.len (Nat.zero_le _)
      simp only [Nat.add_zero, Nat.sub_zero] at hnext
      rw [Nat.min_comm, Nat.add_assoc pg (k + 1) 1] at hnext
      rw [segments_page h h0, hsplit, hnext]
      change _ = bytes cur ++ (bytes (_, w.take) ++ bufferBytes frame _ w.next.len) ↔ _
      by_cases hm : frame (pg + (k + 1)) = frame pg + (k + 1)
      · rw [if_pos hm]
        have hcover := fun hin => cover_extend hr h0 hm hin (ih (h.next h0) (Walk.next_len_le hn))
        exact ⟨fun e => have hin := inStep_of_cover hr h0 hm (by simp [bufferBytes]) e; ⟨hin, (hcover hin).mp e⟩,
          fun hj => (hcover hj.1).mpr hj.2⟩
      · rw [if_neg hm, List.flatMap_cons, List.append_cancel_left_eq, ih (h.next h0) (Walk.next_len_le hn)]
        · exact (and_iff_right fun hj => absurd hj hm).symm
        · refine ⟨hr.next_len, fun hne => ?_, fun _ hj => absurd hj hm⟩
          rw [Walk.take_of_next hne]
          exact (Nat.succ_mul _ _).symm

end

/-! ## the free list -/

/-- the free descriptors, in the order in which they are taken -/
structure Avail (r : Vring) (free : List Nat) : Prop where
  links : Linked r.nextFree (ptr r.freeList) free
  nodup : free.Nodup
  count : r.freeCount = free.length
  small : ∀ i ∈ free, i < 2 ^ 15
  length : free.length ≤ 2 ^ 15

section
variable {r : Vring} {free : List Nat} {i d : Nat} {write : Bool}

theorem Avail.of_layout {heads : List Nat} {chain : Nat → List Nat} (L : Layout r heads free chain)
    (hn : r.num ≤ 2 ^ 15) : Avail r free :=
  ⟨L.links, (List.nodup_append.mp L.nodup).1, L.count, fun _ hi => (L.lt_free hi).trans_le hn,
    L.free_length_le.trans hn⟩

theorem Avail.head (h : Avail r (i :: free)) : r.freeList = i := by
  have h := h.links.1
  unfold ptr at h
  split at h
  · cases h
  · exact Option.some.inj h

theorem Avail.take (h : Avail r (i :: free)) {r' : Vring} (hd : ∀ a ∈ free, r'.desc a = r.desc a)
    (hf : r'.freeList = (r.desc i).next) (hc : r'.freeCount = (r.freeCount + (2 ^ 16 - 1)) % 2 ^ 16) :
    Avail r' free := by
  have hcount := h.count
  have hlen := h.length
  rw [List.length_cons] at hcount hlen
  refine ⟨?_, (List.nodup_cons.mp h.nodup).2, ?_, fun a ha => h.small a (.tail i ha), by omega⟩
  · rw [hf]
    apply h.links.2.congr
    intro a ha
    rw [nextFree, nextFree, hd a ha]
  · rw [hc, hcount]
    omega

theorem Avail.takeFree (h : Avail r (i :: free)) (d : VringDesc) :
    Avail (takeFree r d) free ∧ (LkHv.takeFree r d).desc = Function.update r.desc i d := by
  have hi := h.head
  have hdesc : (LkHv.takeFree r d).desc = Function.update r.desc i d := congrArg (Function.update r.desc · d) hi
  refine ⟨h.take (fun a ha => ?_) (congrArg (fun i => (r.desc i).next) hi) rfl, hdesc⟩
  rw [hdesc]
  apply Function.update_of_ne
  rintro rfl
  exact (List.nodup_cons.mp h.nodup).1 ha

/-- the first three descriptors as a chain, the last of them first -/
theorem Avail.chain_three {f0 f1 f2 : Nat} (h : Avail r (f0 :: f1 :: f2 :: free)) :
    ∃ r', virtioAllocDescChain r 3 = (some f2, r') ∧ Avail r' free ∧ SameRings r r' ∧ r'.desc f0 = ⟨0, 0⟩ ∧
      r'.desc f1 = ⟨VRING_DESC_F_NEXT, f0⟩ ∧ r'.desc f2 = ⟨VRING_DESC_F_NEXT, f1⟩ := by
  obtain ⟨h1, e1⟩ := h.takeFree ⟨0, 0⟩
  obtain ⟨h2, e2⟩ := h1.takeFree ⟨VRING_DESC_F_NEXT, f0⟩
  obtain ⟨h3, e3⟩ := h2.takeFree ⟨VRING_DESC_F_NEXT, f1⟩
  have hnd := h.nodup
  simp only [List.nodup_cons, List.mem_cons, not_or] at hnd
  refine ⟨_, ?_, h3, rfl, ?_, ?_, ?_⟩
  · rw [virtioAllocDescChain, if_neg (by rw [h.count]; simp), popChain, popChain, popChain, popChain, h.head, h1.head,
      h2.head]
  · rw [e3, e2, e1, Function.update_of_ne hnd.1.2.1, Function.update_of_ne hnd.1.1, Function.update_self]
  · rw [e3, e2, Function.update_of_ne hnd.2.1.1, Function.update_self]
  · rw [e3, Function.update_self]

/-- a free descriptor spliced in behind `d` -/
theorem Avail.splice (h : Avail r (i :: free)) (hd : d ∉ i :: free) : ∃ r', (virtioAllocDesc r).1 = i ∧
    spliceDesc r d write = some r' ∧ Avail r' free ∧ SameRings r r' ∧ r'.desc d = ⟨(r.desc d).flags, i⟩ ∧
      r'.desc i = ⟨dataFlags write, (r.desc d).next⟩ ∧ ∀ a, a ≠ d → a ≠ i → r'.desc a = r.desc a := by
  have hdi : d ≠ i := fun e => hd (e ▸ List.mem_cons_self)
  have hc : r.freeCount ≠ 0 := by
    rw [h.count]
    exact Nat.succ_ne_zero _
  have hlt : i ≠ 0xffff := by
    have := h.small i List.mem_cons_self
    omega
  have hkeep : (LkHv.takeFree r (r.desc i)).desc = r.desc := by
    rw [(h.takeFree _).2, Function.update_eq_self]
  obtain ⟨descs, hdescs⟩ : ∃ f, f = Function.update
    (Function.update r.desc i ⟨dataFlags write, (r.desc d).next⟩) d ⟨(r.desc d).flags, i⟩ := ⟨_, rfl⟩
  have hother : ∀ a, a ≠ d → a ≠ i → descs a = r.desc a := by
    intro a h1 h2
    rw [hdescs, Function.update_of_ne h1, Function.update_of_ne h2]
  refine ⟨{ LkHv.takeFree r (r.desc i) with desc := descs }, ?_, ?_, ?_, rfl, ?_, ?_, hother⟩
  · rw [virtioAllocDesc, if_neg hc, h.head]
  · rw [spliceDesc, virtioAllocDesc, if_neg hc]
    simp only [h.head]
    rw [if_neg hlt]
    simp only [hkeep, Function.update_of_ne hdi]
    rw [hdescs]
    rfl
  · refine h.take (fun a ha => hother a ?_ ?_) (congrArg (fun i => (r.desc i).next) h.head) rfl
    · rintro rfl
      exact hd (List.mem_cons_of_mem i ha)
    · rintro rfl
      exact (List.nodup_cons.mp h.nodup).1 ha
  · show descs d = _
    rw [hdescs, Function.update_self]
  · show descs i = _
    rw [hdescs, Function.update_of_ne hdi.symm, Function.update_self]

/-! ## the loop on the ring -/

/-- a descriptor is left as it is -/
structure Same (r r' : BlockRing) (a : Nat) : Prop where
  desc : r'.desc a = r.desc a
  addr : r'.addr a = r.addr a
  len : r'.len a = r.len a

theorem Same.entry {r r' : BlockRing} {a : Nat} (h : Same r r' a) : r'.entry a = r.entry a := by
  rw [BlockRing.entry, BlockRing.entry, h.desc, h.addr, h.len]

/-- **The loop has put** the descriptors of `segs` into the chain, from that of `g` on; behind them is `f0`. -/
structure Gathered (g g' : Gather) (free taken : List Nat) (segs : List (Nat × Nat)) (write : Bool) (f0 : Nat) :
    Prop where
  len : g'.len = 0
  sub : ∀ a ∈ taken, a ∈ free
  chain : Linked g'.ring.nextDesc (some g.desc) (g.desc :: (taken ++ [f0]))
  entries : (g.desc :: taken).map g'.ring.entry = segs.map fun s => ⟨s.1, s.2, dataFlags write⟩
  last : (g'.ring.desc g'.desc).next = f0
  others : ∀ a, a ≠ g.desc → a ∉ free → Same g.ring g'.ring a
  rings : SameRings g.ring.toVring g'.ring.toVring

theorem nextDesc_of {d f0 flags : Nat} (h : r.desc d = ⟨flags, f0⟩) (hf : flags &&& VRING_DESC_F_NEXT ≠ 0) :
    r.nextDesc d = some f0 := by
  rw [nextDesc, h]
  exact if_pos hf

theorem nextDesc_data {d f0 : Nat} (h : r.desc d = ⟨dataFlags write, f0⟩) : r.nextDesc d = some f0 :=
  nextDesc_of h (by cases write <;> decide)

/-- nothing left to do -/
theorem Gathered.refl {g : Gather} {f0 : Nat} (hlen : g.len = 0) (hd : g.ring.desc g.desc = ⟨dataFlags write, f0⟩)
    (hf0 : g.ring.nextDesc f0 = none) : Gathered g g free [] [(g.ring.addr g.desc, g.ring.len g.desc)] write f0 where
  len := hlen
  sub _ h := absurd h List.not_mem_nil
  chain := ⟨rfl, nextDesc_data hd, hf0⟩
  entries := by
    rw [List.map_singleton, List.map_singleton, BlockRing.entry, hd]
  last := by rw [hd]
  others _ _ _ := ⟨rfl, rfl, rfl⟩
  rings := rfl

/-- a descriptor in front, behind which the first of the others was put -/
theorem Gathered.cons {g g1 g' : Gather} {taken : List Nat} {segs : List (Nat × Nat)} {f0 addr len : Nat}
    (G : Gathered g1 g' free taken segs write f0) (hdf : g.desc ∉ i :: free) (hi : g1.desc = i)
    (hdd : g1.ring.desc g.desc = ⟨dataFlags write, i⟩) (haddr : g1.ring.addr = Function.update g.ring.addr i addr)
    (hlen : g1.ring.len = Function.update g.ring.len i len)
    (hothers : ∀ a, a ≠ g.desc → a ≠ i → g1.ring.desc a = g.ring.desc a)
    (hrings : SameRings g.ring.toVring g1.ring.toVring) :
    Gathered g g' (i :: free) (i :: taken) ((g.ring.addr g.desc, g.ring.len g.desc) :: segs) write f0 := by
  subst hi
  have hdne : g.desc ≠ g1.desc := fun e => hdf (e ▸ List.mem_cons_self)
  have hdesc := G.others g.desc hdne fun h => hdf (.tail _ h)
  refine ⟨G.len, fun a h => ?_, ⟨rfl, ?_⟩, ?_, G.last, fun a h1 h2 => ?_, ?_⟩
  · rcases List.mem_cons.mp h with rfl | h
    · exact List.mem_cons_self
    · exact .tail _ (G.sub a h)
  · rw [nextDesc_data (hdesc.desc.trans hdd)]
    exact G.chain
  · rw [List.map_cons, G.entries, List.map_cons, hdesc.entry, BlockRing.entry, hdd, haddr, hlen,
      Function.update_of_ne hdne, Function.update_of_ne hdne]
  · have hne : a ≠ g1.desc := fun e => h2 (e ▸ List.mem_cons_self)
    obtain ⟨e1, e2, e3⟩ := G.others a hne fun h => h2 (.tail _ h)
    refine ⟨e1.trans (hothers a h1 hne), e2.trans ?_, e3.trans ?_⟩
    · rw [haddr, Function.update_of_ne hne]
    · rw [hlen, Function.update_of_ne hne]
  · have h3 := G.rings
    rw [SameRings] at h3 hrings ⊢
    rw [h3, hrings]

variable {frame : Nat → Nat}

/-- **The loop**: it puts in the descriptors of `segments`, if there are enough for it. -/
theorem gather_spec {f0 : Nat} : ∀ {n : Nat} {g : Gather} {free : List Nat}, Avail g.ring.toVring free →
    g.ring.desc g.desc = ⟨dataFlags write, f0⟩ → g.desc ∉ free → f0 ∉ free → g.desc ≠ f0 →
    g.ring.nextDesc f0 = none → g.len ≤ n →
    ∀ segs, segs = segments frame n g.toWalk (g.ring.addr g.desc, g.ring.len g.desc) →
    (free.length + 1 < segs.length → gather frame write n g = none) ∧
    (segs.length ≤ free.length + 1 → ∃ g' taken, gather frame write n g = some g' ∧
      Gathered g g' free taken segs write f0) := by
  intro n
  induction n with
  | zero =>
    rintro g free _ hd _ _ _ hf0 hlen segs rfl
    refine ⟨fun h => ?_, fun _ => ⟨g, [], rfl, .refl (Nat.le_zero.mp hlen) hd hf0⟩⟩
    exact absurd h (Nat.not_lt.mpr (Nat.succ_le_succ (Nat.zero_le _)))
  | succ n ih =>
    rintro g free hav hd hdf h0f hd0 hf0 hlen segs rfl
    rw [segments, gather]
    by_cases h0 : g.len = 0
    · rw [if_pos h0, if_pos h0]
      refine ⟨fun h => ?_, fun _ => ⟨g, [], rfl, .refl h0 hd hf0⟩⟩
      exact absurd h (Nat.not_lt.mpr (Nat.succ_le_succ (Nat.zero_le _)))
    · have hle := Walk.next_len_le hlen
      rw [if_neg h0, if_neg h0]
      by_cases hm : g.nextPa = vaddrToPaddr frame g.next.va
      · -- the descriptor is extended
        obtain ⟨lens, hl⟩ : ∃ f, f = Function.update g.ring.len g.desc ((g.ring.len g.desc + g.take) % 2 ^ 32) := ⟨_, rfl⟩
        have hpass : gatherPass frame write g = some ⟨g.next, { g.ring with len := lens }, g.desc⟩ := by
          rw [hl]
          exact if_pos hm
        have hcur : (g.ring.len g.desc + g.take) % 2 ^ 32 = lens g.desc := by
          rw [hl, Function.update_self]
        rw [if_pos hm, hpass, Option.bind_some, hcur]
        obtain ⟨h1, h2⟩ := ih (g := ⟨g.next, { g.ring with len := lens }, g.desc⟩) hav hd hdf h0f hd0 hf0 hle _ rfl
        refine ⟨h1, fun h => ?_⟩
        obtain ⟨g', taken, hg, G⟩ := h2 h
        refine ⟨g', taken, hg, G.len, G.sub, G.chain, G.entries, G.last, fun a ha hf => ?_, G.rings⟩
        obtain ⟨e1, e2, e3⟩ := G.others a ha hf
        refine ⟨e1, e2, e3.trans ?_⟩
        rw [hl]
        exact Function.update_of_ne ha _ _
      · rw [if_neg hm, List.length_cons]
        cases free with
        | nil =>
          have hpass : gatherPass frame write g = none := by
            have hnone : spliceDesc g.ring.toVring g.desc write = none := by
              rw [spliceDesc, virtioAllocDesc, if_pos (show g.ring.freeCount = 0 from hav.count)]
              rfl
            rw [gatherPass, hnone]
            exact if_neg hm
          rw [hpass]
          exact ⟨fun _ => rfl, fun h => absurd h (Nat.not_le.mpr (Nat.succ_lt_succ segments_pos))⟩
        | cons i free =>
          -- a new descriptor is put behind it
          obtain ⟨r, hi, hs, hav', hrings, hdd, hdi, hothers⟩ := @Avail.splice _ _ _ _ write hav hdf
          obtain ⟨addrs, ha⟩ : ∃ f, f = Function.update g.ring.addr i (vaddrToPaddr frame g.next.va) := ⟨_, rfl⟩
          obtain ⟨lens, hl⟩ : ∃ f, f = Function.update g.ring.len i g.take := ⟨_, rfl⟩
          have hpass : gatherPass frame write g = some ⟨g.next, ⟨r, addrs, lens⟩, i⟩ := by
            rw [gatherPass, hs, hi, ha, hl]
            exact if_neg hm
          have hcur : (vaddrToPaddr frame g.next.va, g.take) = (addrs i, lens i) := by
            rw [ha, hl, Function.update_self, Function.update_self]
          have hine : i ≠ f0 := fun e => h0f (e ▸ List.mem_cons_self)
          rw [hd] at hdd hdi
          have hf0' : r.nextDesc f0 = none := by
            rw [nextDesc, hothers f0 hd0.symm hine.symm]
            exact hf0
          rw [hpass, Option.bind_some, hcur]
          obtain ⟨h1, h2⟩ := ih (g := ⟨g.next, ⟨r, addrs, lens⟩, i⟩) hav' hdi (List.nodup_cons.mp hav.nodup).1
            (fun h => h0f (.tail i h)) hine hf0' hle _ rfl
          refine ⟨fun h => h1 (Nat.lt_of_succ_lt_succ h), fun h => ?_⟩
          obtain ⟨g', taken, hg, G⟩ := h2 (Nat.le_of_succ_le_succ h)
          exact ⟨g', i :: taken, hg, G.cons hdf rfl hdd ha hl hothers hrings⟩

end

/-! ## the transfer -/

/-- the bytes a descriptor names -/
def Entry.bytes (e : Entry) : List Nat := List.range' e.addr e.len

/-- the pages of the buffer behind the first that are not at the expected address -/
def breaks (frame : Nat → Nat) (buf len : Nat) : Nat :=
  (List.range' 1 (pagesOf (buf % PAGE_SIZE + len) - 1)).countP fun j =>
    frame (buf / PAGE_SIZE + j) ≠ frame (buf / PAGE_SIZE) + j

/-- the pages that do not follow the page before them -/
def runBreaks (frame : Nat → Nat) (buf len : Nat) : Nat :=
  (List.range' 1 (pagesOf (buf % PAGE_SIZE + len) - 1)).countP fun j =>
    frame (buf / PAGE_SIZE + j) ≠ frame (buf / PAGE_SIZE + (j - 1)) + 1

/-- **The transfer that is asked for**: the request, the bytes of the buffer in order, and the response -/
structure Submits (frame : Nat → Nat) (dev : BlockDev) (buf offset len : Nat) (write : Bool)
    (x : (BlockRing × Nat) × BlockDev × Nat) : Prop where
  request : x.2.1.type = (if write then VIRTIO_BLK_T_OUT else VIRTIO_BLK_T_IN) ∧ x.2.1.ioprio = 0 ∧
    x.2.1.sector = offset / 512
  chain : ∃ data, x.1.1.chainOf x.1.2 = ⟨dev.blkReqPhys, 16, VRING_DESC_F_NEXT⟩ ::
      (data ++ [⟨dev.blkResponsePhys, 1, VRING_DESC_F_WRITE⟩]) ∧
    data.flatMap Entry.bytes = bufferBytes frame buf len ∧ ∀ e ∈ data, e.flags = dataFlags write
  submitted : x.1.1.availRing (dev.ring.availIdx &&& dev.ring.numMask) = x.1.2 ∧
    x.1.1.availIdx = (dev.ring.availIdx + 1) % 2 ^ 16
  returned : x.2.2 = 0 ∧ x.2.1.locked = false

/-- the call fails and gives everything back -/
structure Refuses (dev : BlockDev) (x : (BlockRing × Nat) × BlockDev × Nat) : Prop where
  failed : x.2.2 ≠ 0
  ring : x.2.1.ring = dev.ring
  locked : x.2.1.locked = false

/-- what the driver is asked to do: the transfer, or a failure where a descriptor for each run of pages is too much -/
def Right (frame : Nat → Nat) (wait : BlockRing → BlockRing) (dev : BlockDev) (buf offset len : Nat) (write : Bool) :
    Prop :=
  ∃ x, virtioBlockReadWrite frame wait dev buf offset len write = some x ∧
    (Submits frame dev buf offset len write x ∨ (dev.ring.freeCount < 3 + runBreaks frame buf len ∧ Refuses dev x))

/-- a buffer of the address space, in memory of 52-bit addresses -/
structure Fits (frame : Nat → Nat) (buf len : Nat) : Prop where
  frames : ∀ p, frame p < 2 ^ 40
  start : buf < 2 ^ 64
  stop : buf + len ≤ 2 ^ 64
  small : len < 2 ^ 63

/-- the first descriptor of the buffer -/
def firstSegment (frame : Nat → Nat) (buf len : Nat) : Nat × Nat :=
  (vaddrToPaddr frame buf, min (sub64 (pageAlign (add64 (vaddrToPaddr frame buf) 1)) (vaddrToPaddr frame buf)) len)

/-- the walk behind it -/
def startWalk (frame : Nat → Nat) (buf len : Nat) : Walk :=
  ⟨buf, pageAlign (add64 (vaddrToPaddr frame buf) 1), len - (firstSegment frame buf len).2⟩

/-- the descriptors of the buffer -/
def bufferSegments (frame : Nat → Nat) (buf len : Nat) : List (Nat × Nat) :=
  segments frame (startWalk frame buf len).len (startWalk frame buf len) (firstSegment frame buf len)

section
variable {frame : Nat → Nat} {wait : BlockRing → BlockRing} {dev : BlockDev} {buf offset len : Nat} {write : Bool}
  {free : List Nat}

/-- where the walk begins -/
theorem Fits.first (h : Fits frame buf len) : (firstSegment frame buf len).2 = min (PAGE_SIZE - buf % PAGE_SIZE) len ∧
    At frame (buf / PAGE_SIZE) 0 (startWalk frame buf len) ∧
    Reaches frame (buf / PAGE_SIZE) 0 (buf % PAGE_SIZE) len (startWalk frame buf len) (firstSegment frame buf len) := by
  obtain ⟨h1, h2, h3, h4⟩ := h
  have hf := h1 (buf / PAGE_SIZE)
  have halign : pageAlign (add64 (vaddrToPaddr frame buf) 1) = (frame (buf / PAGE_SIZE) + 0 + 1) * PAGE_SIZE := by
    unfold pageAlign roundup64 add64 vaddrToPaddr PAGE_SIZE at *
    omega
  have hfirst : (firstSegment frame buf len).2 = min (PAGE_SIZE - buf % PAGE_SIZE) len := by
    unfold firstSegment
    dsimp only
    rw [halign]
    unfold sub64 vaddrToPaddr PAGE_SIZE at *
    omega
  have hlen : (startWalk frame buf len).len = len - min (PAGE_SIZE - buf % PAGE_SIZE) len := congrArg (len - ·) hfirst
  refine ⟨hfirst, ⟨rfl, halign, hf, ?_, ?_⟩, ?_, fun h => ?_, fun h _ => ?_⟩
  · rw [hlen]
    unfold PAGE_SIZE
    omega
  · rw [hlen]
    unfold PAGE_SIZE
    lia
  · rw [hlen]
    unfold PAGE_SIZE
    omega
  · rw [hlen] at h
    rw [hfirst]
    show frame (buf / PAGE_SIZE) * PAGE_SIZE + buf % PAGE_SIZE + _ = (frame (buf / PAGE_SIZE) + 1) * PAGE_SIZE
    unfold PAGE_SIZE at *
    omega
  · rw [hlen] at h
    rw [hfirst]
    unfold PAGE_SIZE at *
    omega

theorem bufferSegments_count (h : Fits frame buf len) :
    (bufferSegments frame buf len).length = 1 + breaks frame buf len := by
  obtain ⟨hfirst, hat, -⟩ := h.first
  have hpages : pagesOf (startWalk frame buf len).len = pagesOf (buf % PAGE_SIZE + len) - 1 := by
    unfold startWalk
    dsimp only
    rw [hfirst]
    unfold pagesOf PAGE_SIZE
    omega
  rw [bufferSegments, segments_count hat (le_refl _), hpages]
  rfl

theorem bufferSegments_cover (h : Fits frame buf len) :
    (bufferSegments frame buf len).flatMap bytes = bufferBytes frame buf len ↔
      ∀ j, 0 < j → j * PAGE_SIZE < buf % PAGE_SIZE + len → InStep frame (buf / PAGE_SIZE) (buf % PAGE_SIZE) len j := by
  obtain ⟨hfirst, hat, hreach⟩ := h.first
  have hsplit := @bufferBytes_split frame (buf / PAGE_SIZE) (buf % PAGE_SIZE) len (Nat.mod_lt _ (by decide)).le
  rw [Nat.div_add_mod', ← hfirst] at hsplit
  rw [hsplit]
  exact segments_cover hat (le_refl _) hreach

/-- **The chain** with its header in front and the response behind it -/
theorem Gathered.chain_of {g g' : Gather} {rest taken : List Nat} {segs : List (Nat × Nat)} {num f0 f2 req resp : Nat}
    (G : Gathered g g' rest taken segs write f0) (hnum : g'.ring.num = num) (hlen : segs.length + 2 ≤ num)
    (h01 : f0 ≠ g.desc) (h02 : f0 ≠ f2) (h0r : f0 ∉ rest) (h0 : g.ring.desc f0 = ⟨0, 0⟩)
    (h2 : g.ring.desc f2 = ⟨VRING_DESC_F_NEXT, g.desc⟩) (h2e : g.ring.entry f2 = ⟨req, 16, VRING_DESC_F_NEXT⟩)
    (h2f : f2 ≠ g.desc ∧ f2 ∉ rest) {R : BlockRing} (hR : R = { g'.ring.put f0 ⟨resp, 1, VRING_DESC_F_WRITE⟩ with
      toVring := virtioSubmitChain (g'.ring.put f0 ⟨resp, 1, VRING_DESC_F_WRITE⟩).toVring f2 }) :
    R.chainOf f2 = ⟨req, 16, VRING_DESC_F_NEXT⟩ :: (segs.map (fun s => ⟨s.1, s.2, dataFlags write⟩) ++
      [⟨resp, 1, VRING_DESC_F_WRITE⟩]) := by
  have e2 := G.others f2 h2f.1 h2f.2
  obtain ⟨d1, -, -⟩ := G.others f0 h01 h0r
  have hdesc : R.desc = Function.update g'.ring.desc f0 ⟨VRING_DESC_F_WRITE, 0⟩ := by
    rw [hR]
    show Function.update g'.ring.desc f0 ⟨VRING_DESC_F_WRITE, (g'.ring.desc f0).next⟩ = _
    rw [d1, h0]
  have hentry : ∀ a, a ≠ f0 → R.entry a = g'.ring.entry a := by
    intro a ha
    rw [BlockRing.entry, hdesc, Function.update_of_ne ha, hR]
    simp only [BlockRing.put, Function.update_of_ne ha]
    rfl
  have hresp : R.entry f0 = ⟨resp, 1, VRING_DESC_F_WRITE⟩ := by
    rw [BlockRing.entry, hdesc, Function.update_self, hR]
    simp [BlockRing.put]
  have hlink : Linked R.nextDesc (some f2) (f2 :: g.desc :: (taken ++ [f0])) := by
    refine Linked.congr (f := g'.ring.nextDesc) ⟨rfl, ?_⟩ fun a _ => ?_
    · rw [nextDesc_of (e2.desc.trans h2) (by decide)]
      exact G.chain
    · rw [nextDesc, nextDesc, hdesc]
      by_cases ha : a = f0
      · rw [ha, Function.update_self, d1, h0]
        rfl
      · rw [Function.update_of_ne ha]
  have hchain : R.chainFrom R.num f2 = f2 :: g.desc :: (taken ++ [f0]) := by
    apply chainFrom_eq hlink
    have := congrArg List.length G.entries
    rw [show R.num = num by rw [hR]; exact hnum]
    simp only [List.length_cons, List.length_append, List.length_nil, List.length_map] at this ⊢
    omega
  rw [BlockRing.chainOf, hchain, List.map_cons, ← List.cons_append, List.map_append, List.map_singleton, hresp,
    hentry f2 h02.symm, e2.entry, h2e, ← G.entries]
  refine congrArg _ (congrArg (· ++ _) (List.map_congr_left fun a ha => hentry a ?_))
  rcases List.mem_cons.mp ha with rfl | ha
  · exact h01.symm
  · exact fun e => h0r (e ▸ G.sub a ha)

/-- what the function returns -/
def answer (wait : BlockRing → BlockRing) (dev : BlockDev) (offset : Nat) (write : Bool) (ring : BlockRing) (i : Nat) :
    (BlockRing × Nat) × BlockDev × Nat :=
  ((ring, i), { dev with
    ring := wait ring, locked := false, ioprio := 0, sector := offset / 512
    type := if write then VIRTIO_BLK_T_OUT else VIRTIO_BLK_T_IN }, 0)

/-- **The descriptors that the driver makes**, in the chain of three that it starts from -/
theorem readWrite_eq (hav : Avail dev.ring.toVring free) (hnum : free.length ≤ dev.ring.num) :
    (free.length < 2 + (bufferSegments frame buf len).length →
      virtioBlockReadWrite frame wait dev buf offset len write = none) ∧
    (2 + (bufferSegments frame buf len).length ≤ free.length →
      ∃ ring i, virtioBlockReadWrite frame wait dev buf offset len write = some (answer wait dev offset write ring i) ∧
      ring.chainOf i = ⟨dev.blkReqPhys, 16, VRING_DESC_F_NEXT⟩ ::
        ((bufferSegments frame buf len).map (fun s => ⟨s.1, s.2, dataFlags write⟩) ++
          [⟨dev.blkResponsePhys, 1, VRING_DESC_F_WRITE⟩]) ∧
      ring.availRing (dev.ring.availIdx &&& dev.ring.numMask) = i ∧
      ring.availIdx = (dev.ring.availIdx + 1) % 2 ^ 16) := by
  have hpos : 0 < (bufferSegments frame buf len).length := segments_pos
  by_cases h3 : dev.ring.freeCount < 3
  · have hcount := hav.count
    have hnone : virtioAllocDescChain dev.ring.toVring 3 = (none, dev.ring.toVring) := if_pos h3
    refine ⟨fun _ => ?_, fun h => by omega⟩
    unfold virtioBlockReadWrite
    dsimp only
    rw [hnone]
  · rw [hav.count] at h3
    obtain ⟨f0, f1, f2, rest, rfl⟩ : ∃ f0 f1 f2 rest, free = f0 :: f1 :: f2 :: rest := by
      match free, h3 with
      | f0 :: f1 :: f2 :: rest, _ => exact ⟨f0, f1, f2, rest, rfl⟩
      | [], h => exact absurd (by decide) h
      | [_], h => exact absurd (by simp) h
      | [_, _], h => exact absurd (by simp) h
    obtain ⟨r, hr, hav', hrings, e0, e1, e2⟩ := hav.chain_three
    have hnd := hav.nodup
    simp only [List.nodup_cons, List.mem_cons, not_or] at hnd
    obtain ⟨⟨h01, h02, h0r⟩, ⟨h12, h1r⟩, h2r, -⟩ := hnd
    -- the ring at the start of the loop
    obtain ⟨head, hhead⟩ : ∃ head, head = BlockRing.put ⟨r, dev.ring.addr, dev.ring.len⟩ f2
      ⟨dev.blkReqPhys, 16, (r.desc f2).flags ||| VRING_DESC_F_NEXT⟩ := ⟨_, rfl⟩
    have hnext : (head.desc f2).next = f1 ∧ head.desc f1 = ⟨VRING_DESC_F_NEXT, f0⟩ := by
      rw [hhead]
      simp [BlockRing.put, Function.update_of_ne h12, e1, e2]
    obtain ⟨ring, hring⟩ : ∃ ring, ring = head.put f1
      ⟨(firstSegment frame buf len).1, (firstSegment frame buf len).2, (head.desc f1).flags ||| dataFlags write⟩ :=
      ⟨_, rfl⟩
    have hring1 : ring.desc f1 = ⟨dataFlags write, f0⟩ ∧
        (ring.addr f1, ring.len f1) = firstSegment frame buf len := by
      rw [hring]
      simp only [BlockRing.put, Function.update_self, hnext.2]
      cases write <;> exact ⟨rfl, trivial⟩
    have hring2 : ring.desc f2 = ⟨VRING_DESC_F_NEXT, f1⟩ ∧ ring.entry f2 = ⟨dev.blkReqPhys, 16, VRING_DESC_F_NEXT⟩ := by
      rw [hring, hhead]
      simp [BlockRing.put, BlockRing.entry, Function.update_of_ne (Ne.symm h12), e2]
    have hother : ∀ a, a ≠ f1 → a ≠ f2 → ring.desc a = r.desc a := by
      intro a h1 h2
      rw [hring, hhead]
      simp only [BlockRing.put, Function.update_of_ne h1, Function.update_of_ne h2]
    have hring0 : ring.desc f0 = ⟨0, 0⟩ := (hother f0 h01 h02).trans e0
    have hringv : ring.toVring = { r with desc := ring.desc } := by
      rw [hring, hhead]
      rfl
    have hringf : Avail ring.toVring rest := by
      have hsame : ∀ a ∈ rest, ring.desc a = r.desc a := fun a ha =>
        hother a (fun e => h1r (e ▸ ha)) fun e => h2r (e ▸ ha)
      rw [hringv]
      exact ⟨hav'.links.congr fun a ha => congrArg (fun d : VringDesc => ptr d.next) (hsame a ha), hav'.nodup, hav'.count,
        hav'.small, hav'.length⟩
    have hcall : virtioBlockReadWrite frame wait dev buf offset len write =
        (gather frame write (startWalk frame buf len).len ⟨startWalk frame buf len, ring, f1⟩).map fun g =>
        let ring := g.ring.put (g.ring.desc g.desc).next ⟨dev.blkResponsePhys, 1, VRING_DESC_F_WRITE⟩
        let ring := { ring with toVring := virtioSubmitChain ring.toVring f2 }
        ((ring, f2), { (answer wait dev offset write ring f2).2.1 with }, g.len) := by
      unfold virtioBlockReadWrite
      simp only [hr]
      rw [← hhead, hnext.1, hring]
      rfl
    obtain ⟨hnone, hsome⟩ := @gather_spec write frame f0 _ ⟨startWalk frame buf len, ring, f1⟩ _
      hringf hring1.1 h1r h0r (Ne.symm h01) (by rw [nextDesc, hring0]; rfl) (le_refl _) (bufferSegments frame buf len)
      (by rw [hring1.2]; rfl)
    rw [hcall]
    refine ⟨fun h => ?_, fun h => ?_⟩
    · rw [hnone (by simp only [List.length_cons] at h; omega)]
      rfl
    · obtain ⟨g, taken, hg, G⟩ := hsome (by simp only [List.length_cons] at h; omega)
      rw [hg, Option.map_some, G.len, G.last]
      have hsame := G.rings
      rw [SameRings] at hsame hrings
      rw [hringv, hrings] at hsame
      have hn := congrArg Vring.num hsame
      have hidx := congrArg (fun v : Vring => v.availIdx) hsame
      have hmask := congrArg Vring.numMask hsame
      dsimp only at hn hidx hmask
      refine ⟨_, _, rfl, G.chain_of hn (by omega) h01 h02 h0r hring0 hring2.1 hring2.2 ⟨Ne.symm h12, h2r⟩ rfl, ?_, ?_⟩
      · show Function.update g.ring.availRing (g.ring.availIdx &&& g.ring.numMask) f2 _ = f2
        rw [hidx, hmask]
        exact Function.update_self _ _ _
      · exact congrArg (fun i => (i + 1) % 2 ^ 16) hidx

variable {heads : List Nat} {chain : Nat → List Nat}

theorem flatMap_data (l : List (Nat × Nat)) :
    (l.map fun s => Entry.mk s.1 s.2 (dataFlags write)).flatMap Entry.bytes = l.flatMap bytes := List.flatMap_map ..

/-- a transfer needs that -/
theorem Right.needs (hring : Layout dev.ring.toVring heads free chain) (hnum : dev.ring.num ≤ 2 ^ 15)
    (hfits : Fits frame buf len) (h : Right frame wait dev buf offset len write) :
    3 + breaks frame buf len ≤ dev.ring.freeCount ∧ ∀ j, 0 < j → j * PAGE_SIZE < buf % PAGE_SIZE + len →
      InStep frame (buf / PAGE_SIZE) (buf % PAGE_SIZE) len j := by
  obtain ⟨x, hx, hright⟩ := h
  obtain ⟨hnone, hsome⟩ := @readWrite_eq frame wait dev buf offset len write free (.of_layout hring hnum)
    hring.free_length_le
  rw [bufferSegments_count hfits, ← hring.count] at hnone hsome
  have henough : 2 + (1 + breaks frame buf len) ≤ dev.ring.freeCount := by
    by_contra h
    rw [hnone (by omega)] at hx
    cases hx
  obtain ⟨ring, i, hcall, hchain, -, -⟩ := hsome henough
  rw [hcall] at hx
  cases hx
  refine ⟨by omega, (bufferSegments_cover hfits).mp ?_⟩
  rcases hright with ⟨-, ⟨data, h1, h2, -⟩, -, -⟩ | ⟨-, hfail, -, -⟩
  · rw [answer, hchain, List.cons.injEq, List.append_cancel_right_eq] at h1
    rw [← flatMap_data, h1.2, h2]
  · exact absurd rfl hfail

/-- **Scatter-gather.**  The driver gets it right if each page that lies at the expected address follows the page
before it, no descriptor gets as long as 32 bits, and there is a free descriptor for each break. -/
theorem readWrite_right_iff (hring : Layout dev.ring.toVring heads free chain) (hnum : dev.ring.num ≤ 2 ^ 15)
    (hfits : Fits frame buf len) : Right frame wait dev buf offset len write ↔
      3 + breaks frame buf len ≤ dev.ring.freeCount ∧ ∀ j, 0 < j → j * PAGE_SIZE < buf % PAGE_SIZE + len →
        InStep frame (buf / PAGE_SIZE) (buf % PAGE_SIZE) len j := by
  refine ⟨fun h => h.needs hring hnum hfits, fun ⟨henough, hcover⟩ => ?_⟩
  obtain ⟨-, hsome⟩ := @readWrite_eq frame wait dev buf offset len write free (.of_layout hring hnum)
    hring.free_length_le
  rw [bufferSegments_count hfits, ← hring.count] at hsome
  obtain ⟨ring, i, hcall, hchain, h1, h2⟩ := hsome (by omega)
  refine ⟨_, hcall, .inl ⟨⟨rfl, rfl, rfl⟩, ⟨_, hchain, ?_, ?_⟩, ⟨h1, h2⟩, rfl, rfl⟩⟩
  · rw [flatMap_data, (bufferSegments_cover hfits).mpr hcover]
  · intro e he
    obtain ⟨s, -, rfl⟩ := List.mem_map.mp he
    rfl

end

/-- a ring of eight descriptors, just set up -/
def newRing : Vring :=
  (List.range 8).foldl virtioFreeDesc (vringInit 8 ⟨fun _ => ⟨0, 0⟩, 0, fun _ => 0, 0, fun _ => ⟨0, 0⟩⟩)

def newDev : BlockDev := ⟨⟨newRing, fun _ => 0, fun _ => 0⟩, false, 0, 0, 0, 0x1000, 0x2000⟩

theorem newDev_layout : ∃ free, Layout newDev.ring.toVring [] free fun _ => [] :=
  (@virtioAllocRing_spec 8 (by decide) _ newRing rfl).2.2 _

/-- a page behind a break that lies where the first page would have gone on -/
def backInStep (p : Nat) : Nat := if p = 2 then 9 else if p = 3 then 7 else 5

theorem backInStep_fits {len : Nat} (h : len < 2 ^ 20) : Fits backInStep 8191 len := by
  refine ⟨fun p => ?_, by decide, by omega, by omega⟩
  unfold backInStep
  split
  · decide
  · split <;> decide

theorem readWrite_right_aligned : Right backInStep id newDev 8191 0 4097 true ↔ 3 + breaks backInStep 8191 4097 ≤ 8 ∧
    ∀ j, 0 < j → j * PAGE_SIZE < 8191 % PAGE_SIZE + 4097 → InStep backInStep 1 4095 4097 j := by
  obtain ⟨free, h⟩ := newDev_layout
  exact readWrite_right_iff h (by decide) (backInStep_fits (by decide))

theorem readWrite_right_fails : ¬ Right backInStep id newDev 8191 0 4098 false := by
  intro h
  obtain ⟨free, hring⟩ := newDev_layout
  have hstep := (h.needs hring (by decide) (backInStep_fits (by decide))).2 2 (by decide) (by decide) rfl
  exact absurd hstep.1 (by decide)

end LkHv.VirtioBlock
