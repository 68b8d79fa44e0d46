import Mathlib.Tactic
import LkHv.Kernel.Word
import LkHv.Lib.Machine
import LkHv.Lib.Spans

/-!
# The first-fit heap

`lib/heap/miniheap/miniheap.c`: a list of free chunks sorted by address, grown and trimmed by whole pages.  A chunk
is the span of its addresses; a live block is known by its pointer and by the chunk its header names.

* `insertFreeChunk`, `miniheapAlloc`, `miniheapFree`, `miniheapRealloc`, `miniheapTrim`   the code;
* `allocFrom_cases`, `trimBounds_spec`   what an allocation takes, and what a trim leaves of a chunk;
* `Holds`, `Inv`            the heap's invariant, and what carries it;
* `Fits`                    the request can be rounded up on 64 bits;
* `miniheap_holds`          **the invariant, and the blocks handed out**.
-/

namespace LkHv
namespace Miniheap
open Spans

/-- `sizeof(struct free_heap_chunk)` -/
def chunkSize : Nat := 24

/-- `sizeof(struct alloc_struct_begin)`: with `LK_DEBUGLEVEL > 1` it has a magic number -/
def headerSize (debug : Bool) : Nat := if debug then 24 else 16

def pageSize : Nat := 4096

/-- no chunk ends in the last page, or its end would wrap -/
def topAddr : Nat := 2 ^ 64 - pageSize

/-- a live block: what was returned, the chunk in its header, and what was asked for -/
structure Block where
  ptr : Nat
  chunk : Span
  want : Nat
  alignment : Nat

structure Heap where
  freeList : List Span
  remaining : Nat
  live : List Block

/-! ## the code -/

/-- `heap_insert_free_chunk` -/
def insertFreeChunk (h : Heap) (chunk : Span) : Heap :=
  { h with
    freeList := Spans.insert chunk h.freeList
    remaining := add64 h.remaining chunk.len }

/-- the bytes a chunk needs for `size` bytes at this alignment -/
def allocSize (debug : Bool) (size alignment : Nat) : Nat :=
  let size := roundup64 (max (add64 size (headerSize debug)) chunkSize) 8
  if 0 < alignment then add64 size (max alignment 16) else size

/-- the walk of `miniheap_alloc`: the chunk taken, and the free list it leaves -/
def allocFrom (size : Nat) : List Span → Option (Span × List Span)
  | [] => none
  | chunk :: rest =>
    if size ≤ chunk.len then
      if add64 size chunkSize < chunk.len then
        some (⟨chunk.base, size⟩, ⟨chunk.base + size, chunk.len - size⟩ :: rest)
      else some (chunk, rest)
    else (allocFrom size rest).map fun p => (p.1, chunk :: p.2)

/-- the pointer returned from a chunk -/
def blockPtr (debug : Bool) (chunk : Span) (alignment : Nat) : Nat :=
  if 0 < alignment then roundup64 (add64 chunk.base (headerSize debug)) (max alignment 16)
  else add64 chunk.base (headerSize debug)

/-- one walk over the free list -/
def allocOnce (debug : Bool) (h : Heap) (size alignment : Nat) : Option (Nat × Heap) :=
  (allocFrom (allocSize debug size alignment) h.freeList).map fun p =>
    (blockPtr debug p.1 alignment,
      { freeList := p.2
        remaining := sub64 h.remaining p.1.len
        live := ⟨blockPtr debug p.1 alignment, p.1, size, alignment⟩ :: h.live })

/-- the length of the chunk `heap_grow` puts in -/
def growLen (size : Nat) : Nat := roundup64 size pageSize

/-- `heap_grow` with the pages at `ptr` -/
def heapGrow (h : Heap) (size ptr : Nat) : Heap := insertFreeChunk h ⟨ptr, growLen size⟩

/-- `alignment & (alignment - 1)` -/
def badAlignment (alignment : Nat) : Bool := alignment &&& (alignment - 1) ≠ 0

/-- `miniheap_alloc`; `mem` is what `page_alloc` gives if the heap has to grow -/
def miniheapAlloc (debug : Bool) (h : Heap) (size alignment : Nat) (mem : Option Nat) : Nat × Heap :=
  if badAlignment alignment then (0, h)
  else
    match allocOnce debug h size alignment with
    | some r => r
    | none =>
      match mem with
      | none => (0, h)
      | some ptr =>
        let h := heapGrow h (allocSize debug size alignment) ptr
        (allocOnce debug h size alignment).getD (0, h)

/-- `miniheap_free`: the header before `ptr` names the chunk -/
def miniheapFree (h : Heap) (ptr : Nat) : Heap :=
  if ptr = 0 then h
  else
    match h.live.find? fun b => b.ptr = ptr with
    | none => h
    | some b => insertFreeChunk { h with live := h.live.eraseP fun b => b.ptr = ptr } b.chunk

/-- `miniheap_realloc` -/
def miniheapRealloc (debug : Bool) (h : Heap) (ptr size : Nat) (mem : Option Nat) : Nat × Heap :=
  if ptr = 0 then miniheapAlloc debug h size 0 mem
  else if size = 0 then (0, miniheapFree h ptr)
  else
    let r := miniheapAlloc debug h size 0 mem
    if r.1 = 0 then (0, r.2) else (r.1, miniheapFree r.2 ptr)

/-- the pages of a free chunk that can go: the retry loop of `miniheap_trim` -/
def trimBounds (start stop startPage endPage : Nat) : Option (Nat × Nat) :=
  if startPage < endPage then
    if startPage ≠ start ∧ startPage - start < chunkSize then trimBounds start stop (startPage + pageSize) endPage
    else if endPage < stop ∧ stop - endPage < chunkSize then trimBounds start stop startPage (endPage - pageSize)
    else some (startPage, endPage)
  else none
termination_by endPage - startPage
decreasing_by all_goals unfold pageSize; omega

/-- the pages of one chunk that go -/
def trimPages (chunk : Span) : Option (Nat × Nat) :=
  trimBounds chunk.base chunk.stop (roundup64 chunk.base pageSize) (rounddown chunk.stop pageSize)

/-- what is left of one chunk -/
def trimChunk (chunk : Span) : List Span :=
  match trimPages chunk with
  | none => [chunk]
  | some (startPage, endPage) =>
    (if startPage = chunk.base then [] else [⟨chunk.base, startPage - chunk.base⟩]) ++
      if endPage < chunk.stop then [⟨endPage, chunk.stop - endPage⟩] else []

/-- the bytes of one chunk that go back to the page allocator -/
def trimmed (chunk : Span) : Nat :=
  match trimPages chunk with
  | none => 0
  | some (startPage, endPage) => endPage - startPage

/-- `miniheap_trim` -/
def miniheapTrim (h : Heap) : Heap :=
  { h with
    freeList := h.freeList.flatMap trimChunk
    remaining := h.freeList.foldl (fun n chunk => sub64 n (trimmed chunk)) h.remaining }

/-! ## calls and runs -/

inductive Call
  | alloc (size alignment : Nat) (mem : Option Nat)
  | free (ptr : Nat)
  | realloc (ptr size : Nat) (mem : Option Nat)
  | trim

/-- `page_alloc` takes an `uint` count, and gives pages that nobody has -/
def Granted (h : Heap) (size ptr : Nat) : Prop :=
  let pages := growLen size / pageSize % 2 ^ 32
  pages ≠ 0 ∧ pageSize ∣ ptr ∧ 0 < ptr ∧ ptr + pages * pageSize ≤ topAddr ∧
    (∀ c ∈ h.freeList, c.Apart ⟨ptr, pages * pageSize⟩) ∧ ∀ b ∈ h.live, b.chunk.Apart ⟨ptr, pages * pageSize⟩

instance (h : Heap) (size ptr : Nat) : Decidable (Granted h size ptr) :=
  inferInstanceAs (Decidable (_ ∧ _ ∧ _ ∧ _ ∧ _ ∧ _))

/-- what the callers keep to: arguments of their types, and pointers that are live -/
def Callable (debug : Bool) (h : Heap) : Call → Prop
  | .alloc size alignment mem =>
    size < 2 ^ 64 ∧ alignment < 2 ^ 32 ∧ ∀ p ∈ mem, Granted h (allocSize debug size alignment) p
  | .free ptr => ptr = 0 ∨ ∃ b ∈ h.live, b.ptr = ptr
  | .realloc ptr size mem =>
    (ptr = 0 ∨ ∃ b ∈ h.live, b.ptr = ptr) ∧ size < 2 ^ 64 ∧ ∀ p ∈ mem, Granted h (allocSize debug size 0) p
  | .trim => True

instance (debug : Bool) (h : Heap) (c : Call) : Decidable (Callable debug h c) := by
  cases c <;> unfold Callable <;> infer_instance

/-- the heap after a call -/
def after (debug : Bool) (h : Heap) : Call → Heap
  | .alloc size alignment mem => (miniheapAlloc debug h size alignment mem).2
  | .free ptr => miniheapFree h ptr
  | .realloc ptr size mem => (miniheapRealloc debug h ptr size mem).2
  | .trim => miniheapTrim h

def miniheapStep (debug : Bool) (h : Heap) (c : Call) : Option Heap :=
  if Callable debug h c then some (after debug h c) else none

/-- a chunk can hold its own list node, is made of words, and does not wrap -/
structure ChunkOk (c : Span) : Prop where
  node : chunkSize ≤ c.len
  base : 8 ∣ c.base
  len : 8 ∣ c.len
  pos : 0 < c.base
  top : c.stop ≤ topAddr

/-- `miniheap_init`: with a range of memory, or without -/
def HeapInit (h : Heap) : Prop :=
  h.live = [] ∧ (h.freeList = [] ∧ h.remaining = 0 ∨ ∃ c, ChunkOk c ∧ h.freeList = [c] ∧ h.remaining = c.len)

/-- the heap, its callers and the page allocator -/
def miniheapSys (debug : Bool) : Machine Heap Call := Machine.ofFun HeapInit (miniheapStep debug)

/-! ## the invariant -/

/-- what the caller asked for, inside the block's chunk -/
structure Block.Ok (debug : Bool) (b : Block) : Prop where
  word : 8 ∣ b.ptr
  aligned : 0 < b.alignment → b.alignment ∣ b.ptr
  header : b.chunk.base + headerSize debug ≤ b.ptr
  room : b.ptr + b.want ≤ b.chunk.stop

/-- **The heap's invariant.** -/
structure Holds (debug : Bool) (h : Heap) : Prop where
  gapped : Gapped h.freeList
  remaining : h.remaining = total h.freeList
  blocks : ∀ b ∈ h.live, b.Ok debug
  apart : h.live.Pairwise fun a b => a.chunk.Apart b.chunk
  free : ∀ b ∈ h.live, ∀ c ∈ h.freeList, b.chunk.Apart c

/-- with the chunks' shape, it is kept by every call -/
structure Inv (debug : Bool) (h : Heap) : Prop extends Holds debug h where
  chunks : ∀ c ∈ h.freeList, ChunkOk c
  taken : ∀ b ∈ h.live, ChunkOk b.chunk

/-- the bytes needed, on all integers -/
def need (debug : Bool) (size alignment : Nat) : Nat :=
  (max (size + headerSize debug) chunkSize + 7) / 8 * 8 + if 0 < alignment then max alignment 16 else 0

/-- the walk finds no chunk, and there are no pages -/
def Refused (debug : Bool) (h : Heap) (size alignment : Nat) (mem : Option Nat) : Prop :=
  (∀ c ∈ h.freeList, c.len < allocSize debug size alignment) ∧ mem = none

/-- the bytes needed are a `size_t`, and the pages to grow by are a `uint` -/
def Fits (debug : Bool) (h : Heap) (size alignment : Nat) : Prop :=
  need debug size alignment < 2 ^ 64 ∧
    ((∃ c ∈ h.freeList, allocSize debug size alignment ≤ c.len) ∨
      growLen (allocSize debug size alignment) / pageSize < 2 ^ 32)

/-- no request wraps, unless it gets nothing -/
def AllocGuard (debug : Bool) (h : Heap) (size alignment : Nat) (mem : Option Nat) : Prop :=
  badAlignment alignment ∨ Refused debug h size alignment mem ∨ Fits debug h size alignment

instance (debug : Bool) (h : Heap) (size alignment : Nat) (mem : Option Nat) :
    Decidable (AllocGuard debug h size alignment mem) :=
  inferInstanceAs (Decidable (_ = true ∨ (_ ∧ _) ∨ _ ∧ (_ ∨ _)))

def NoWrap (debug : Bool) (h : Heap) : Call → Prop
  | .alloc size alignment mem => AllocGuard debug h size alignment mem
  | .realloc ptr size mem => ptr ≠ 0 ∧ size = 0 ∨ AllocGuard debug h size 0 mem
  | _ => True

instance (debug : Bool) (h : Heap) (c : Call) : Decidable (NoWrap debug h c) := by
  cases c <;> unfold NoWrap <;> infer_instance

section
variable {debug : Bool} {h h' : Heap} {c : Span}

theorem ChunkOk.joins : Joins ChunkOk := by
  intro s t hs ht hst
  have h1 : t.stop ≤ topAddr := ht.top
  have h2 := hs.node
  unfold Span.stop at h1 hst
  refine ⟨?_, hs.base, (Nat.dvd_add_right hs.len).mpr ht.len, hs.pos, ?_⟩
  · show chunkSize ≤ s.len + t.len
    lia
  · show s.base + (s.len + t.len) ≤ topAddr
    lia

theorem ChunkOk.len_pos (hc : ChunkOk c) : 0 < c.len := by
  have := hc.node
  unfold chunkSize at this
  omega

/-- the sum of the chunks is a `size_t` -/
theorem total_lt {l : List Span} (hl : Gapped l) (hc : ∀ c ∈ l, ChunkOk c) : total l < 2 ^ 64 := by
  have h1 := hl.total_le (Nat.zero_le topAddr) fun c hm => ⟨Nat.zero_le _, (hc c hm).top⟩
  have h2 : topAddr < 2 ^ 64 := by decide
  omega

/-- **A chunk nobody has is put in.** -/
theorem Inv.insertFreeChunk (hi : Inv debug h) (hc : ChunkOk c) (hf : ∀ s ∈ h.freeList, s.Apart c)
    (hl : ∀ b ∈ h.live, b.chunk.Apart c) : Inv debug (insertFreeChunk h c) := by
  obtain ⟨hg, ht⟩ := insert_gapped hi.gapped hf hc.len_pos
  have hk := insert_forall ChunkOk.joins hi.chunks hc
  refine ⟨⟨hg, ?_, hi.blocks, hi.apart, fun b hb => ?_⟩, hk, hi.taken⟩
  · have h1 := total_lt hg hk
    show add64 h.remaining c.len = total (Spans.insert c h.freeList)
    rw [ht] at h1 ⊢
    rw [hi.remaining]
    exact add64_of_lt h1
  · refine insert_forall (fun s t hs ht hst => ?_) (hi.free b hb) (hl b hb)
    exact hs.join ht (hi.taken b hb).len_pos hst

/-! ## allocation -/

/-- **What an allocation takes**: a whole chunk, or its first bytes if the rest can be a chunk. -/
theorem allocFrom_cases {size : Nat} {l l' : List Span} (ha : allocFrom size l = some (c, l')) :
    ∃ pre x post, l = pre ++ x :: post ∧ size ≤ x.len ∧
      (add64 size chunkSize < x.len ∧ c = ⟨x.base, size⟩ ∧ l' = pre ++ [⟨x.base + size, x.len - size⟩] ++ post ∨
        c = x ∧ l' = pre ++ [] ++ post) := by
  induction l generalizing c l' with
  | nil => cases ha
  | cons x l ih =>
    unfold allocFrom at ha
    split_ifs at ha with h1 h2
    · cases ha
      exact ⟨[], x, l, rfl, h1, .inl ⟨h2, rfl, rfl⟩⟩
    · cases ha
      exact ⟨[], x, l, rfl, h1, .inr ⟨rfl, rfl⟩⟩
    · obtain ⟨p, hp, he⟩ := Option.map_eq_some_iff.mp ha
      cases he
      obtain ⟨pre, y, post, e, h3, h4⟩ := ih hp
      refine ⟨x :: pre, y, post, by rw [e]; rfl, h3, ?_⟩
      rcases h4 with ⟨h4, h5, h6⟩ | ⟨h4, h5⟩
      · exact .inl ⟨h4, h5, by rw [h6]; rfl⟩
      · exact .inr ⟨h4, by rw [h5]; rfl⟩

theorem allocFrom_none {size : Nat} {l : List Span} : allocFrom size l = none ↔ ∀ c ∈ l, c.len < size := by
  induction l with
  | nil => exact ⟨fun _ c hc => (by cases hc), fun _ => rfl⟩
  | cons x l ih =>
    unfold allocFrom
    rw [List.forall_mem_cons]
    split_ifs with h1 h2
    · exact ⟨fun he => (by cases he), fun he => absurd he.1 (by omega)⟩
    · exact ⟨fun he => (by cases he), fun he => absurd he.1 (by omega)⟩
    · rw [Option.map_eq_none_iff, ih]
      exact ⟨fun he => ⟨by omega, he⟩, fun he => he.2⟩

/-- a power of two from 8 on is a multiple of 8 -/
theorem dvd_alignment {a : Nat} (ha : ¬ badAlignment a) (hp : 0 < a) : 8 ∣ max a 16 ∧ a ∣ max a 16 := by
  have h1 : a &&& (a - 1) = 0 := by simpa [badAlignment] using ha
  obtain ⟨k, rfl⟩ := (Nat.and_sub_one_eq_zero_iff_isPowerOfTwo (by omega)).mp h1
  rcases Nat.lt_or_ge k 4 with hk | hk
  · have h2 : 2 ^ k ≤ 16 := Nat.pow_le_pow_right (by decide) (by omega : k ≤ 4)
    rw [Nat.max_eq_right h2]
    exact ⟨by decide, Nat.pow_dvd_pow 2 (by omega : k ≤ 4)⟩
  · have h2 : 16 ≤ 2 ^ k := Nat.pow_le_pow_right (by decide : 0 < 2) (by omega : 4 ≤ k)
    rw [Nat.max_eq_left h2]
    exact ⟨Nat.pow_dvd_pow 2 (by omega : 3 ≤ k), dvd_rfl⟩

/-- a request that fits is not cut off -/
theorem allocSize_eq {size alignment : Nat} (hf : need debug size alignment < 2 ^ 64) :
    allocSize debug size alignment = need debug size alignment := by
  have hh : headerSize debug ≤ 24 := by cases debug <;> decide
  unfold need at *
  unfold allocSize roundup64 chunkSize at *
  split_ifs at hf ⊢ with hp <;> rw [add64_of_lt (by omega : size + headerSize debug < 2 ^ 64)]
  · rw [Nat.mod_eq_of_lt (by omega), add64_of_lt (by omega)]
  · rw [Nat.mod_eq_of_lt (by omega)]
    rfl

theorem headerSize_le (debug : Bool) : headerSize debug ≤ 24 ∧ 8 ∣ headerSize debug := by
  cases debug <;> decide

theorem need_words {size alignment : Nat} (ha : ¬ badAlignment alignment) :
    8 ∣ need debug size alignment ∧ chunkSize ≤ need debug size alignment := by
  have h1 : 8 ∣ (max (size + headerSize debug) chunkSize + 7) / 8 * 8 := Nat.dvd_mul_left _ _
  unfold need chunkSize at *
  split_ifs with hp
  · exact ⟨(Nat.dvd_add_right h1).mpr (dvd_alignment ha hp).1, by lia⟩
  · exact ⟨h1, by lia⟩

/-- the chunk taken, and the ones left -/
theorem take_spec {n : Nat} {l l' : List Span} (hg : Gapped l) (hk : ∀ c ∈ l, ChunkOk c) (hn : 8 ∣ n)
    (hn' : chunkSize ≤ n) (ha : allocFrom n l = some (c, l')) :
    Gapped l' ∧ (∀ s ∈ l', ChunkOk s) ∧ total l = c.len + total l' ∧ (∀ s ∈ l', c.Apart s) ∧
      (∀ s ∈ l', ∃ x ∈ l, s.Within x) ∧ ChunkOk c ∧ n ≤ c.len ∧ ∃ x ∈ l, c.Within x := by
  obtain ⟨pre, x, post, rfl, hx, hcut⟩ := allocFrom_cases ha
  have hmem : x ∈ pre ++ x :: post := by simp
  have hok := hk x hmem
  have hnode := hok.node
  have hlen := hok.len
  have hbase := hok.base
  have hpos := hok.pos
  have htop : x.base + x.len ≤ topAddr := hok.top
  have htop' : topAddr = 2 ^ 64 - 4096 := rfl
  -- the pieces that take the place of `x`
  obtain ⟨p, hl', hp, hw, hpk, hpa, hsum, hc, hcn, hcw⟩ : ∃ p, l' = pre ++ p ++ post ∧ Gapped p ∧
      (∀ t ∈ p, t.Within x) ∧ (∀ t ∈ p, ChunkOk t) ∧ (∀ t ∈ p, c.Apart t) ∧ x.len = c.len + total p ∧
      ChunkOk c ∧ n ≤ c.len ∧ c.Within x := by
    rcases hcut with ⟨hlt, rfl, rfl⟩ | ⟨rfl, rfl⟩
    · have hadd : add64 n chunkSize = n + 24 := add64_of_lt (by unfold chunkSize; lia)
      rw [hadd] at hlt
      refine ⟨_, rfl, List.pairwise_singleton _ _, ?_, ?_, ?_, ?_, ⟨hn', hbase, hn, hpos, ?_⟩, le_rfl, le_rfl, ?_⟩
      · rintro t ht
        cases List.mem_singleton.mp ht
        exact ⟨Nat.le_add_right _ _, by unfold Span.stop; dsimp only; lia⟩
      · rintro t ht
        cases List.mem_singleton.mp ht
        refine ⟨?_, Nat.dvd_add hbase hn, Nat.dvd_sub hlen hn, ?_, ?_⟩
        · unfold chunkSize
          dsimp only
          lia
        · dsimp only
          lia
        · unfold Span.stop
          dsimp only
          lia
      · rintro t ht
        cases List.mem_singleton.mp ht
        exact .inl le_rfl
      · rw [total_cons, total_nil]
        dsimp only
        lia
      · unfold Span.stop
        dsimp only
        lia
      · unfold Span.stop
        dsimp only
        lia
    · exact ⟨[], rfl, .nil, fun t ht => (by cases ht), fun t ht => (by cases ht), fun t ht => (by cases ht), rfl,
        hok, hx, le_rfl, le_rfl⟩
  subst hl'
  have hin : ∀ s ∈ pre ++ p ++ post, s ∈ p ∨ s ∈ pre ++ x :: post ∧ x.Apart s := by
    obtain ⟨-, g2, g3⟩ := gapped_append.mp hg
    obtain ⟨g4, -⟩ := gapped_cons.mp g2
    intro s hs
    rcases List.mem_append.mp hs with hs | hs
    · rcases List.mem_append.mp hs with hs | hs
      · exact .inr ⟨List.mem_append_left _ hs, .inr (g3 s hs x List.mem_cons_self).le⟩
      · exact .inl hs
    · exact .inr ⟨List.mem_append_right _ (List.mem_cons_of_mem _ hs), .inl (g4 s hs).le⟩
  refine ⟨hg.refine hp hw, fun s hs => ?_, ?_, fun s hs => ?_, fun s hs => ?_, hc, hcn, x, hmem, hcw⟩
  · exact (hin s hs).elim (hpk s) fun hs => hk s hs.1
  · rw [total_append, total_cons, total_append, total_append, hsum]
    lia
  · exact (hin s hs).elim (hpa s) fun hs => (hs.2.symm.within hcw).symm
  · exact (hin s hs).elim (fun hs => ⟨x, hmem, hw s hs⟩) fun hs => ⟨s, hs.1, le_rfl, le_rfl⟩

/-- **The pointer returned from a chunk that is big enough.** -/
theorem block_ok {size alignment : Nat} (hc : ChunkOk c) (ha : ¬ badAlignment alignment)
    (hn : need debug size alignment ≤ c.len) :
    Block.Ok debug ⟨blockPtr debug c alignment, c, size, alignment⟩ ∧ 0 < blockPtr debug c alignment := by
  obtain ⟨hh, hh8⟩ := headerSize_le debug
  have htop : c.base + c.len ≤ topAddr := hc.top
  have htop' : topAddr = 2 ^ 64 - 4096 := rfl
  have hb8 := hc.base
  have hpos := hc.pos
  have hadd : add64 c.base (headerSize debug) = c.base + headerSize debug := by
    have := hc.node
    unfold chunkSize at this
    exact add64_of_lt (by lia)
  unfold need chunkSize at hn
  unfold blockPtr
  rw [hadd]
  split_ifs at hn ⊢ with hp
  · obtain ⟨h8, hd⟩ := dvd_alignment ha hp
    obtain ⟨h1, h2, -⟩ := roundup64_spec (a := c.base + headerSize debug) (b := max alignment 16) (by lia) (by lia)
    have h3 : roundup64 (c.base + headerSize debug) (max alignment 16) ≤
        c.base + headerSize debug + (max alignment 16 - 1) := by
      unfold roundup64
      rw [Nat.mod_eq_of_lt (by lia)]
      exact Nat.div_mul_le_self _ _
    refine ⟨⟨h8.trans h1, fun _ => hd.trans h1, h2, ?_⟩, by lia⟩
    unfold Span.stop
    dsimp only
    lia
  · refine ⟨⟨Nat.dvd_add hb8 hh8, fun h0 => absurd h0 hp, le_rfl, ?_⟩, by lia⟩
    unfold Span.stop
    dsimp only
    lia

/-- **One walk that finds a chunk.** -/
theorem Inv.allocOnce {size alignment ptr : Nat} (hi : Inv debug h) (ha : ¬ badAlignment alignment)
    (hf : need debug size alignment < 2 ^ 64) (hr : allocOnce debug h size alignment = some (ptr, h')) :
    Inv debug h' ∧ 0 < ptr ∧ ∃ c, h'.live = ⟨ptr, c, size, alignment⟩ :: h.live := by
  obtain ⟨⟨c, l⟩, hp, he⟩ := Option.map_eq_some_iff.mp hr
  cases he
  rw [allocSize_eq hf] at hp
  obtain ⟨h8, h24⟩ : 8 ∣ need debug size alignment ∧ chunkSize ≤ need debug size alignment := need_words ha
  obtain ⟨hg, hk, hs, hap, hw, hc, hn, x, hx, hcx⟩ := take_spec hi.gapped hi.chunks h8 h24 hp
  obtain ⟨hb, hpos⟩ := block_ok hc ha hn
  have htot := total_lt hi.gapped hi.chunks
  refine ⟨⟨⟨hg, ?_, ?_, ?_, ?_⟩, hk, ?_⟩, hpos, c, rfl⟩
  · show sub64 h.remaining c.len = total l
    rw [hi.remaining, sub64_of_le htot (by lia)]
    lia
  · exact List.forall_mem_cons.mpr ⟨hb, hi.blocks⟩
  · refine List.pairwise_cons.mpr ⟨fun b hb => ?_, hi.apart⟩
    exact ((hi.free b hb x hx).within hcx).symm
  · refine List.forall_mem_cons.mpr ⟨hap, fun b hb s hs => ?_⟩
    obtain ⟨y, hy, hsy⟩ := hw s hs
    exact (hi.free b hb y hy).within hsy
  · exact List.forall_mem_cons.mpr ⟨hc, hi.taken⟩


/-- the pages that are granted are a chunk nobody has -/
theorem Granted.chunk {size ptr : Nat} (hg : Granted h size ptr) (hn : growLen size / pageSize < 2 ^ 32) :
    ChunkOk ⟨ptr, growLen size⟩ ∧ (∀ s ∈ h.freeList, s.Apart ⟨ptr, growLen size⟩) ∧
      ∀ b ∈ h.live, b.chunk.Apart ⟨ptr, growLen size⟩ := by
  obtain ⟨h0, hd, hpos, htop, hf, hl⟩ := hg
  have hlen : growLen size / pageSize % 2 ^ 32 * pageSize = growLen size := by
    rw [Nat.mod_eq_of_lt hn]
    exact Nat.div_mul_cancel (Nat.dvd_mul_left _ _)
  rw [hlen] at htop hf hl
  have hp : pageSize ∣ growLen size := Nat.dvd_mul_left _ _
  have h8 : 8 ∣ pageSize := by decide
  refine ⟨⟨?_, h8.trans hd, h8.trans hp, hpos, htop⟩, hf, hl⟩
  have h1 : growLen size ≠ 0 := fun he => h0 (by rw [he]; rfl)
  have h2 := Nat.le_of_dvd (by lia) hp
  exact (show chunkSize ≤ pageSize by decide).trans h2

/-- pages put in -/
theorem Inv.heapGrow {size ptr : Nat} (hi : Inv debug h) (hg : Granted h size ptr)
    (hn : growLen size / pageSize < 2 ^ 32) : Inv debug (heapGrow h size ptr) := by
  obtain ⟨hc, hf, hl⟩ := hg.chunk hn
  exact hi.insertFreeChunk hc hf hl

/-- **`miniheap_alloc`.**  Nothing is handed out, or a block of what was asked for. -/
theorem Inv.miniheapAlloc {size alignment : Nat} {mem : Option Nat} (hi : Inv debug h)
    (hm : ∀ p ∈ mem, Granted h (allocSize debug size alignment) p) (hg : AllocGuard debug h size alignment mem) :
    let r := miniheapAlloc debug h size alignment mem
    Inv debug r.2 ∧ (r.1 = 0 ∧ r.2.live = h.live ∨
      0 < r.1 ∧ ∃ c, r.2.live = ⟨r.1, c, size, alignment⟩ :: h.live) := by
  intro r
  have hr : r = Miniheap.miniheapAlloc debug h size alignment mem := rfl
  clear_value r
  unfold Miniheap.miniheapAlloc at hr
  split_ifs at hr with ha
  · rw [hr]
    exact ⟨hi, .inl ⟨rfl, rfl⟩⟩
  rcases hg with hg | ⟨hnone, rfl⟩ | ⟨hf, hgrow⟩
  · exact absurd hg ha
  · have h1 : Miniheap.allocOnce debug h size alignment = none := by
      unfold Miniheap.allocOnce
      rw [allocFrom_none.mpr hnone, Option.map_none]
    rw [h1] at hr
    rw [hr]
    exact ⟨hi, .inl ⟨rfl, rfl⟩⟩
  · cases h1 : Miniheap.allocOnce debug h size alignment with
    | some q =>
      rw [h1] at hr
      obtain ⟨h2, h3, c, h4⟩ := hi.allocOnce ha hf h1
      rw [hr]
      exact ⟨h2, .inr ⟨h3, c, h4⟩⟩
    | none =>
      rw [h1] at hr
      cases mem with
      | none =>
        rw [hr]
        exact ⟨hi, .inl ⟨rfl, rfl⟩⟩
      | some p =>
        have hlt : growLen (allocSize debug size alignment) / pageSize < 2 ^ 32 := by
          rcases hgrow with ⟨c, hc, hlen⟩ | hlt
          · have h2 := allocFrom_none.mp (Option.map_eq_none_iff.mp h1) c hc
            omega
          · exact hlt
        have hi' := hi.heapGrow (hm p rfl) hlt
        change r = (Miniheap.allocOnce debug _ size alignment).getD _ at hr
        cases h2 : Miniheap.allocOnce debug (Miniheap.heapGrow h (allocSize debug size alignment) p) size
            alignment with
        | none =>
          rw [h2] at hr
          rw [hr]
          exact ⟨hi', .inl ⟨rfl, rfl⟩⟩
        | some q =>
          rw [h2] at hr
          obtain ⟨h3, h4, c, h5⟩ := hi'.allocOnce ha hf h2
          rw [hr]
          exact ⟨h3, .inr ⟨h4, c, h5⟩⟩

/-! ## freeing -/

/-- the block a pointer names, apart from all the others -/
theorem find_block {l : List Block} {ptr : Nat} {b : Block} (hl : l.Pairwise fun a b => a.chunk.Apart b.chunk)
    (hf : l.find? (fun b => b.ptr = ptr) = some b) :
    b ∈ l ∧ ∀ a ∈ l.eraseP fun b => b.ptr = ptr, a.chunk.Apart b.chunk := by
  induction l with
  | nil => cases hf
  | cons x l ih =>
    obtain ⟨h1, h2⟩ := List.pairwise_cons.mp hl
    by_cases hx : x.ptr = ptr
    · rw [List.find?_cons_of_pos (by simpa using hx)] at hf
      cases hf
      rw [List.eraseP_cons_of_pos (by simpa using hx)]
      exact ⟨List.mem_cons_self, fun a ha => (h1 a ha).symm⟩
    · rw [List.find?_cons_of_neg (by simpa using hx)] at hf
      rw [List.eraseP_cons_of_neg (by simpa using hx)]
      obtain ⟨h3, h4⟩ := ih h2 hf
      exact ⟨List.mem_cons_of_mem _ h3, List.forall_mem_cons.mpr ⟨h1 b h3, h4⟩⟩

/-- a block less -/
theorem Inv.erase (hi : Inv debug h) (ptr : Nat) :
    Inv debug { h with live := h.live.eraseP fun b => b.ptr = ptr } := by
  have hsub := List.eraseP_subset (p := fun b : Block => decide (b.ptr = ptr)) (l := h.live)
  exact ⟨⟨hi.gapped, hi.remaining, fun a ha => hi.blocks a (hsub ha), hi.apart.sublist List.eraseP_sublist,
    fun a ha => hi.free a (hsub ha)⟩, hi.chunks, fun a ha => hi.taken a (hsub ha)⟩

/-- **`miniheap_free`.** -/
theorem Inv.miniheapFree (hi : Inv debug h) (ptr : Nat) : Inv debug (miniheapFree h ptr) := by
  unfold Miniheap.miniheapFree
  split_ifs with h0
  · exact hi
  cases hb : h.live.find? fun b => b.ptr = ptr with
  | none => exact hi
  | some b =>
    obtain ⟨hm, hap⟩ := find_block hi.apart hb
    exact (hi.erase ptr).insertFreeChunk (hi.taken b hm) (fun s hs => (hi.free b hm s hs).symm) hap

/-- **`miniheap_realloc`.** -/
theorem Inv.miniheapRealloc {ptr size : Nat} {mem : Option Nat} (hi : Inv debug h)
    (hm : ∀ p ∈ mem, Granted h (allocSize debug size 0) p)
    (hg : ptr ≠ 0 ∧ size = 0 ∨ AllocGuard debug h size 0 mem) : Inv debug (miniheapRealloc debug h ptr size mem).2 := by
  unfold Miniheap.miniheapRealloc
  split_ifs with h0 h1
  · rcases hg with hg | hg
    · exact absurd h0 hg.1
    · exact (hi.miniheapAlloc hm hg).1
  · exact hi.miniheapFree ptr
  · rcases hg with hg | hg
    · exact absurd hg.2 h1
    · have h2 := (hi.miniheapAlloc hm hg).1
      dsimp only
      split_ifs
      · exact h2
      · exact h2.miniheapFree ptr

/-! ## trimming -/

/-- the loop keeps to whole pages inside its bounds, and leaves room for a list node on both sides -/
theorem trimBounds_spec {start stop sp ep sp' ep' : Nat} (hs : start ≤ sp) (he : ep ≤ stop) (hsp : pageSize ∣ sp)
    (hep : pageSize ∣ ep) (h : trimBounds start stop sp ep = some (sp', ep')) :
    pageSize ∣ sp' ∧ pageSize ∣ ep' ∧ sp' < ep' ∧ (sp' = start ∨ start + chunkSize ≤ sp') ∧
      (ep' = stop ∨ ep' + chunkSize ≤ stop) := by
  induction sp, ep using trimBounds.induct start stop with
  | case1 sp ep hlt hfront ih =>
    rw [trimBounds, if_pos hlt, if_pos hfront] at h
    exact ih (by lia) he (Nat.dvd_add hsp dvd_rfl) hep h
  | case2 sp ep hlt hfront hback ih =>
    rw [trimBounds, if_pos hlt, if_neg hfront, if_pos hback] at h
    exact ih hs (by lia) hsp (Nat.dvd_sub hep dvd_rfl) h
  | case3 sp ep hlt hfront hback =>
    rw [trimBounds, if_pos hlt, if_neg hfront, if_neg hback] at h
    cases h
    exact ⟨hsp, hep, hlt, by lia, by lia⟩
  | case4 sp ep hlt =>
    rw [trimBounds, if_neg hlt] at h
    cases h

/-- **What a trim leaves of a chunk**, and what it gives back. -/
theorem trimChunk_spec (hc : ChunkOk c) :
    Gapped (trimChunk c) ∧ (∀ t ∈ trimChunk c, t.Within c ∧ ChunkOk t) ∧
      trimmed c + total (trimChunk c) = c.len := by
  have htop : c.base + c.len ≤ topAddr := hc.top
  have htop' : topAddr = 2 ^ 64 - 4096 := rfl
  obtain ⟨r1, r2, -⟩ := roundup64_spec (a := c.base) (b := pageSize) (by decide) (by unfold pageSize; lia)
  have r3 : rounddown c.stop pageSize ≤ c.stop := Nat.div_mul_le_self _ _
  unfold trimChunk trimmed
  cases hp : trimPages c with
  | none =>
    refine ⟨List.pairwise_singleton _ _, fun t ht => ?_, ?_⟩
    · cases List.mem_singleton.mp ht
      exact ⟨⟨le_rfl, le_rfl⟩, hc⟩
    · rw [total_cons, total_nil]
      dsimp only
      lia
  | some p =>
    obtain ⟨sp, ep⟩ := p
    obtain ⟨d1, d2, hlt, hfront, hback⟩ := trimBounds_spec r2 r3 r1 (Nat.dvd_mul_left _ _) hp
    have h8 : 8 ∣ pageSize := by decide
    have e1 := h8.trans d1
    have e2 := h8.trans d2
    have hb8 := hc.base
    have hl8 := hc.len
    have hpos := hc.pos
    unfold chunkSize at hfront
    unfold Span.stop chunkSize at hback
    -- the two ends
    have hfok : sp ≠ c.base → ChunkOk ⟨c.base, sp - c.base⟩ := fun hne => by
      refine ⟨?_, hb8, Nat.dvd_sub e1 hb8, hpos, ?_⟩
      · unfold chunkSize
        dsimp only
        lia
      · unfold Span.stop
        dsimp only
        lia
    have hbok : ep < c.stop → ChunkOk ⟨ep, c.stop - ep⟩ := fun hne => by
      unfold Span.stop at hne
      refine ⟨?_, e2, Nat.dvd_sub (Nat.dvd_add hb8 hl8) e2, ?_, ?_⟩
      · unfold chunkSize Span.stop
        dsimp only
        lia
      · dsimp only
        lia
      · unfold Span.stop
        dsimp only
        lia
    dsimp only
    refine ⟨gapped_append.mpr ⟨?_, ?_, ?_⟩, fun t ht => ?_, ?_⟩
    · split_ifs
      · exact .nil
      · exact List.pairwise_singleton _ _
    · split_ifs
      · exact List.pairwise_singleton _ _
      · exact .nil
    · intro s hs t ht
      obtain ⟨-, hs⟩ := List.mem_ite_nil_left.mp hs
      obtain ⟨-, ht⟩ := List.mem_ite_nil_right.mp ht
      cases List.mem_singleton.mp hs
      cases List.mem_singleton.mp ht
      unfold Span.stop
      dsimp only
      lia
    · rcases List.mem_append.mp ht with ht | ht
      · obtain ⟨h1, ht⟩ := List.mem_ite_nil_left.mp ht
        cases List.mem_singleton.mp ht
        refine ⟨⟨le_rfl, ?_⟩, hfok h1⟩
        unfold Span.stop
        dsimp only
        lia
      · obtain ⟨h1, ht⟩ := List.mem_ite_nil_right.mp ht
        cases List.mem_singleton.mp ht
        refine ⟨⟨?_, ?_⟩, hbok h1⟩
        · dsimp only
          lia
        · unfold Span.stop at *
          dsimp only
          lia
    · rw [total_append]
      unfold Span.stop at *
      split_ifs with h1 h2 h2 <;> simp only [total_cons, total_nil] <;> lia

/-- the sum of what is left, and the pages taken off one after the other -/
theorem trim_remaining {l : List Span} (hl : ∀ c ∈ l, ChunkOk c) {n : Nat} (hn : n + total l < 2 ^ 64) :
    l.foldl (fun n c => sub64 n (trimmed c)) (n + total l) = n + total (l.flatMap trimChunk) := by
  induction l generalizing n with
  | nil => rfl
  | cons c l ih =>
    obtain ⟨h1, h2⟩ := List.forall_mem_cons.mp hl
    have h3 := (trimChunk_spec h1).2.2
    rw [total_cons] at hn ⊢
    rw [List.foldl_cons, List.flatMap_cons, total_append, sub64_of_le (by omega) (by omega),
      show n + (c.len + total l) - trimmed c = n + total (trimChunk c) + total l by omega, ih h2 (by omega)]
    omega

/-- **`miniheap_trim`.** -/
theorem Inv.miniheapTrim (hi : Inv debug h) : Inv debug (miniheapTrim h) := by
  have hs := fun c hc => trimChunk_spec (hi.chunks c hc)
  have hmem : ∀ t ∈ h.freeList.flatMap trimChunk, ∃ c ∈ h.freeList, t.Within c ∧ ChunkOk t := by
    intro t ht
    obtain ⟨c, hc, htc⟩ := List.mem_flatMap.mp ht
    exact ⟨c, hc, (hs c hc).2.1 t htc⟩
  refine ⟨⟨?_, ?_, hi.blocks, hi.apart, fun b hb t ht => ?_⟩, fun t ht => ?_, hi.taken⟩
  · exact hi.gapped.flatMap (fun c hc => (hs c hc).1) fun c hc t ht => ((hs c hc).2.1 t ht).1
  · have h1 := trim_remaining hi.chunks (n := 0) (by simpa using total_lt hi.gapped hi.chunks)
    rw [Nat.zero_add, Nat.zero_add, ← hi.remaining] at h1
    exact h1
  · obtain ⟨c, hc, hw, -⟩ := hmem t ht
    exact (hi.free b hb c hc).within hw
  · obtain ⟨c, hc, -, hk⟩ := hmem t ht
    exact hk


/-! ## every run -/

/-- a call that returns a pointer leaves it live, with what was asked for -/
def Served (debug : Bool) (h : Heap) : Call → Prop
  | .alloc size alignment mem =>
    let r := miniheapAlloc debug h size alignment mem
    r.1 = 0 ∨ ∃ b ∈ r.2.live, b.ptr = r.1 ∧ b.want = size ∧ b.alignment = alignment
  | .realloc ptr size mem =>
    let r := miniheapRealloc debug h ptr size mem
    r.1 = 0 ∨ ∃ b ∈ r.2.live, b.ptr = r.1 ∧ b.want = size ∧ b.alignment = 0
  | _ => True

/-- two blocks with disjoint chunks have different pointers -/
theorem Block.Ok.ptr_ne {a b : Block} (ha : a.Ok debug) (hb : b.Ok debug) (hab : a.chunk.Apart b.chunk) :
    a.ptr ≠ b.ptr := by
  have h1 := ha.header
  have h2 := ha.room
  have h3 := hb.header
  have h4 := hb.room
  have h5 : 0 < headerSize debug := by cases debug <;> decide
  unfold Span.Apart at hab
  lia

theorem miniheapFree_live {ptr : Nat} {b : Block} (hb : b ∈ h.live) (hne : b.ptr ≠ ptr) :
    b ∈ (miniheapFree h ptr).live := by
  unfold miniheapFree
  split_ifs
  · exact hb
  · cases h.live.find? fun b => b.ptr = ptr with
    | none => exact hb
    | some a => exact (List.mem_eraseP_of_neg (by simpa using hne)).mpr hb

theorem Inv.served {call : Call} (hi : Inv debug h) (hc : Callable debug h call) (hg : NoWrap debug h call) :
    Served debug h call := by
  cases call with
  | free ptr => trivial
  | trim => trivial
  | alloc size alignment mem =>
    rcases (hi.miniheapAlloc hc.2.2 hg).2 with h1 | ⟨h1, c, h2⟩
    · exact .inl h1.1
    · exact .inr ⟨_, by rw [h2]; exact List.mem_cons_self, rfl, rfl, rfl⟩
  | realloc ptr size mem =>
    obtain ⟨hptr, -, hm⟩ := hc
    suffices hs : ∀ r, r = Miniheap.miniheapRealloc debug h ptr size mem →
        r.1 = 0 ∨ ∃ b ∈ r.2.live, b.ptr = r.1 ∧ b.want = size ∧ b.alignment = 0 from hs _ rfl
    intro r hr
    unfold Miniheap.miniheapRealloc at hr
    by_cases h0 : ptr = 0
    · rw [if_pos h0] at hr
      have hg' : AllocGuard debug h size 0 mem := hg.resolve_left fun he => he.1 h0
      rw [hr]
      rcases (hi.miniheapAlloc hm hg').2 with h1 | ⟨h1, c, h2⟩
      · exact .inl h1.1
      · exact .inr ⟨_, by rw [h2]; exact List.mem_cons_self, rfl, rfl, rfl⟩
    by_cases h1 : size = 0
    · rw [if_neg h0, if_pos h1] at hr
      rw [hr]
      exact .inl rfl
    have hg' : AllocGuard debug h size 0 mem := hg.resolve_left fun he => h1 he.2
    obtain ⟨hi', hp⟩ := hi.miniheapAlloc hm hg'
    rw [if_neg h0, if_neg h1] at hr
    dsimp only at hr
    rcases hp with hp | ⟨hpos, c, hlive⟩
    · rw [if_pos hp.1] at hr
      rw [hr]
      exact .inl rfl
    · rw [if_neg hpos.ne'] at hr
      rw [hr]
      -- the new block is not the one that is freed
      obtain ⟨a, ha, hap⟩ := hptr.resolve_left h0
      have hnew : ∀ b ∈ (Miniheap.miniheapAlloc debug h size 0 mem).2.live, b.Ok debug := hi'.blocks
      have hapart := hi'.apart
      rw [hlive] at hnew hapart
      refine .inr ⟨_, miniheapFree_live (by rw [hlive]; exact List.mem_cons_self) ?_, rfl, rfl, rfl⟩
      rw [← hap]
      exact (hnew _ List.mem_cons_self).ptr_ne (hnew a (List.mem_cons_of_mem _ ha))
        ((List.pairwise_cons.mp hapart).1 a ha)

theorem Inv.after {call : Call} (hi : Inv debug h) (hc : Callable debug h call) (hg : NoWrap debug h call) :
    Inv debug (after debug h call) := by
  cases call with
  | alloc size alignment mem => exact (hi.miniheapAlloc hc.2.2 hg).1
  | free ptr => exact hi.miniheapFree ptr
  | realloc ptr size mem => exact hi.miniheapRealloc hc.2.2 hg
  | trim => exact hi.miniheapTrim

theorem Inv.init (h0 : HeapInit h) : Inv debug h := by
  obtain ⟨hl, hf⟩ := h0
  have hb : ∀ {P : Block → Prop}, ∀ b ∈ h.live, P b := by
    intro P b hb
    rw [hl] at hb
    cases hb
  refine ⟨⟨?_, ?_, hb, by rw [hl]; exact .nil, hb⟩, ?_, hb⟩ <;> rcases hf with ⟨h1, h2⟩ | ⟨c, hc, h1, h2⟩ <;> rw [h1]
  · exact .nil
  · exact List.pairwise_singleton _ _
  · exact h2
  · rw [h2, total_cons, total_nil, Nat.add_zero]
  · exact fun c hc => by cases hc
  · exact fun d hd => List.mem_singleton.mp hd ▸ hc

theorem run_inv (hr : (miniheapSys debug).Run (NoWrap debug) h) : Inv debug h := by
  refine hr.invariant (I := Inv debug) (fun _ h0 => Inv.init h0) fun h call h' hi hg hs => ?_
  obtain ⟨hc, he⟩ := Option.ite_none_right_eq_some.mp (show miniheapStep debug h call = some h' from hs)
  cases he
  exact hi.after hc hg

/-- **The heap, in every run whose requests do not wrap**: the free list is sorted, disjoint and merged, `remaining`
is its sum, and every pointer handed out is a block of what was asked for that no other block and no free chunk
touches. -/
theorem miniheap_holds (hr : (miniheapSys debug).Run (NoWrap debug) h) :
    Holds debug h ∧ ∀ call, Callable debug h call → NoWrap debug h call →
      Served debug h call ∧ Holds debug (after debug h call) := by
  have hi := run_inv hr
  exact ⟨hi.toHolds, fun call hc hg => ⟨hi.served hc hg, (hi.after hc hg).toHolds⟩⟩

end

/-- one page of memory -/
def onePage : Heap := ⟨[⟨4096, 4096⟩], 4096, []⟩

theorem onePage_init : HeapInit onePage :=
  ⟨rfl, .inr ⟨⟨4096, 4096⟩, ⟨by decide, by decide, by decide, by decide, by decide⟩, rfl, rfl⟩⟩

/-- two blocks, one of them aligned and from new pages; the other grows, the first goes and the pages are trimmed -/
theorem miniheap_holds_trim : ∃ h,
    Machine.execIf (NoWrap false) (miniheapStep false) onePage
      [.alloc 100 0 none, .alloc 5000 64 (some 16384), .realloc 4112 200 none, .free 16448, .trim] = some h ∧
      h.live.map Block.ptr = [4232] ∧ h.freeList = [⟨4096, 120⟩, ⟨4432, 3760⟩] ∧ Holds false h := by
  obtain ⟨h, hh, hp⟩ := (Option.any_eq_true _ _).mp (show (Machine.execIf (NoWrap false) (miniheapStep false) onePage
      [.alloc 100 0 none, .alloc 5000 64 (some 16384), .realloc 4112 200 none, .free 16448, .trim]).any
      (fun h => h.live.map Block.ptr = [4232] ∧ h.freeList = [⟨4096, 120⟩, ⟨4432, 3760⟩]) by decide +kernel)
  have hp' := of_decide_eq_true hp
  have h0 : (miniheapSys false).Run (NoWrap false) onePage := .init onePage_init
  exact ⟨h, hh, hp'.1, hp'.2, (miniheap_holds (h0.execIf _ hh)).1⟩

/-- **A request that wraps.**  For `2^64 - 8` bytes the header makes it 8, and a chunk of 24 bytes is handed out. -/
theorem miniheap_holds_fails : ¬ ∀ h, (miniheapSys false).Reach h → Holds false h := by
  intro hall
  obtain ⟨h, hh, hp⟩ := (Option.any_eq_true _ _).mp (show (Machine.exec (miniheapStep false) onePage
      [.alloc (2 ^ 64 - 8) 0 none]).any (fun h => ∃ b ∈ h.live, b.chunk.stop < b.ptr + b.want) by decide)
  obtain ⟨b, hb, hlt⟩ := of_decide_eq_true hp
  have h0 : (miniheapSys false).Reach onePage := .init onePage_init
  exact absurd ((hall h (h0.exec _ hh)).blocks b hb).room (by omega)

end Miniheap
end LkHv
