import Mathlib.Data.List.Nodup
import Mathlib.Data.List.Perm.Basic
import LkHv.Bcache.Block

/-!
# The block cache is consistent

* `Listed`          each block on one of the two lists, no two blocks of the lru list with one number;
* `StepOk`          what a call may do: a block that is held stays, dirty contents go only to the device, and
                    what is read is what was last written;
* `BcacheGuard`     the guard;
* `bcache_consistent`   in runs under the guard every state is `Listed` and every step `StepOk`;
* `bcache_consistent_fails`   not so after a read that failed.
-/

namespace LkHv
namespace Bcache
namespace Cache

/-- block `n` is inside the device -/
def InDev (s : Cache) (n : Nat) : Prop := n * s.blockSize + s.blockSize ≤ s.devSize

instance (s : Cache) (n : Nat) : Decidable (s.InDev n) := inferInstanceAs (Decidable (_ ≤ _))

end Cache

/-- every block on one list, every number in one block of the lru list -/
structure Listed (s : Cache) : Prop where
  lists : (s.freeList ++ s.lruList).Perm (List.range s.count)
  distinct : ∀ b ∈ s.lruList, ∀ c ∈ s.lruList, (s.blocks b).blocknum = (s.blocks c).blocknum → b = c

/-- the block number a call reads -/
def Op.reads : Op → Option Nat
  | .read _ n | .get _ n => some n
  | _ => none

/-- what holds between the states before and after a call -/
structure Keeps (s s' : Cache) : Prop where
  held : ∀ b < s.count, 0 < (s.blocks b).refCount → b ∈ s'.lruList ∧ (s'.blocks b).blocknum = (s.blocks b).blocknum
  dirty : ∀ b < s.count, (s.blocks b).isDirty = true →
    (s'.blocks b).isDirty = true ∧ (s'.blocks b).blocknum = (s.blocks b).blocknum ∨
      ∀ i < s.blockSize, s'.dev ((s.blocks b).blocknum * s.blockSize + i) = (s.blocks b).content i

structure StepOk (s : Cache) (op : Op) (s' : Cache) (out : Out) : Prop where
  keeps : Keeps s s'
  latest : ∀ c n, out = .data c → op.reads = some n → ∀ i < s.blockSize, c i = s.written n i

/-- the guard, on the state before a step and the device during it: a block that is brought in is inside the
device, and its read succeeds -/
def BcacheGuard (s : Cache) : Op → Prop
  | .read io n | .get io n => s.blockOf n = none → s.InDev n ∧ io.readFails = false
  | .zero _ n => s.blockOf n = none → s.InDev n
  | _ => True

/-! ## the invariant -/

structure CacheInv (s : Cache) : Prop where
  whole : s.torn = false
  lists : (s.freeList ++ s.lruList).Perm (List.range s.count)
  distinct : ∀ b ∈ s.lruList, ∀ c ∈ s.lruList, (s.blocks b).blocknum = (s.blocks c).blocknum → b = c
  range : ∀ b ∈ s.lruList, s.InDev (s.blocks b).blocknum
  /-- a clean block without a store to come is on the device -/
  clean : ∀ b ∈ s.lruList, (s.blocks b).isDirty = false → s.unmarked (s.blocks b).blocknum = false →
    ∀ i < s.blockSize, s.dev ((s.blocks b).blocknum * s.blockSize + i) = (s.blocks b).content i
  content : ∀ b ∈ s.lruList, ∀ i < s.blockSize, (s.blocks b).content i = s.written (s.blocks b).blocknum i
  held : ∀ n, s.unmarked n = true → ∃ b ∈ s.lruList, (s.blocks b).blocknum = n ∧ 0 < (s.blocks b).refCount
  /-- what is not in the cache is on the device -/
  away : ∀ n, s.InDev n → (∀ b ∈ s.lruList, (s.blocks b).blocknum ≠ n) →
    ∀ i < s.blockSize, s.dev (n * s.blockSize + i) = s.written n i
  free : ∀ b ∈ s.freeList, (s.blocks b).isDirty = false ∧ (s.blocks b).refCount = 0

section
variable {s s' : Cache} {io : Io} {b n : Nat}

theorem CacheInv.listed (h : CacheInv s) : Listed s := ⟨h.lists, h.distinct⟩

theorem CacheInv.nodup (h : CacheInv s) : (s.freeList ++ s.lruList).Nodup := h.lists.nodup_iff.mpr List.nodup_range

theorem CacheInv.mem_range (h : CacheInv s) : b ∈ s.freeList ∨ b ∈ s.lruList ↔ b < s.count := by
  rw [← List.mem_append, h.lists.mem_iff, List.mem_range]

/-- a block that is in use is on the lru list -/
theorem CacheInv.mem_lru (h : CacheInv s) (hb : b < s.count)
    (hu : (s.blocks b).isDirty = true ∨ 0 < (s.blocks b).refCount) : b ∈ s.lruList := by
  rcases h.mem_range.mpr hb with hf | hl
  · obtain ⟨h1, h2⟩ := h.free b hf
    rcases hu with hu | hu
    · rw [h1] at hu
      cases hu
    · omega
  · exact hl

theorem CacheInv.boot (h : Boot s) : CacheInv s where
  whole := h.whole
  lists := by
    rw [h.lruList, h.freeList, List.append_nil]
    exact List.reverse_perm _
  distinct b hb := by
    rw [h.lruList] at hb
    cases hb
  range b hb := by
    rw [h.lruList] at hb
    cases hb
  clean b hb := by
    rw [h.lruList] at hb
    cases hb
  content b hb := by
    rw [h.lruList] at hb
    cases hb
  held n hn := by
    rw [h.unmarked] at hn
    cases hn
  away n _ _ i _ := (h.written n i).symm
  free b hb := by
    rw [h.freeList, List.mem_reverse, List.mem_range] at hb
    exact ⟨(h.blocks b hb).2, (h.blocks b hb).1⟩

/-! ## the device -/

theorem blockLen_eq (hn : s.InDev n) : s.blockLen n = s.blockSize := by
  unfold Cache.InDev at hn
  unfold Cache.blockLen Cache.bioTrimRange
  split
  · lia
  · split
    · lia
    · split <;> lia

/-- the bytes of different blocks are different bytes -/
theorem block_apart {m bs i : Nat} (hm : m ≠ n) (hi : i < bs) : ¬ (n * bs ≤ m * bs + i ∧ m * bs + i < n * bs + bs) := by
  rintro ⟨h1, h2⟩
  rcases Nat.lt_or_gt_of_ne hm with hlt | hlt
  · have := Nat.mul_le_mul_right bs (show m + 1 ≤ n from hlt)
    rw [Nat.succ_mul] at this
    omega
  · have := Nat.mul_le_mul_right bs (show n + 1 ≤ m from hlt)
    rw [Nat.succ_mul] at this
    omega

theorem devWrite_same (hn : s.InDev n) (f : Nat → Nat) {i : Nat} (hi : i < s.blockSize) :
    s.devWrite n f (n * s.blockSize + i) = f (n * s.blockSize + i) := by
  unfold Cache.devWrite
  rw [blockLen_eq hn, if_pos (by lia)]

theorem devWrite_other (hn : s.InDev n) (f : Nat → Nat) {m i : Nat} (hm : m ≠ n) (hi : i < s.blockSize) :
    s.devWrite n f (m * s.blockSize + i) = s.dev (m * s.blockSize + i) := by
  unfold Cache.devWrite
  rw [blockLen_eq hn, if_neg (block_apart hm hi)]

/-- `flush_block` of a block inside the device: the other blocks of the device stay, and the block is clean
only if its bytes are there -/
theorem flushBlock_cases (io : Io) (hn : s.InDev (s.blocks b).blocknum) : ∃ d : Nat → Nat,
    (∀ m ≠ (s.blocks b).blocknum, ∀ i < s.blockSize, d (m * s.blockSize + i) = s.dev (m * s.blockSize + i)) ∧
    (s.flushBlock io b = ({ s with dev := d }, false) ∨
      s.flushBlock io b = (({ s with dev := d } : Cache).setBlock b fun k => { k with isDirty := false }, true) ∧
        ∀ i < s.blockSize, d ((s.blocks b).blocknum * s.blockSize + i) = (s.blocks b).content i) := by
  unfold Cache.flushBlock Cache.bioWrite
  rw [blockLen_eq hn]
  dsimp only
  split
  · rename_i hz
    refine ⟨s.dev, fun _ _ _ _ => rfl, .inr ⟨if_pos rfl, fun i hi => ?_⟩⟩
    omega
  · split
    · exact ⟨_, fun m hm i hi => devWrite_other hn _ hm hi, .inl (if_neg (by simp))⟩
    · refine ⟨_, fun m hm i hi => devWrite_other hn _ hm hi, .inr ⟨if_pos rfl, fun i hi => ?_⟩⟩
      rw [devWrite_same hn _ hi, Nat.add_sub_cancel_left]

/-! ## changes to one block -/

/-- the lru list in another order -/
theorem CacheInv.reorder (h : CacheInv s) {l : List Nat} (hl : l.Perm s.lruList) :
    CacheInv { s with lruList := l } := by
  have hm : ∀ {b}, b ∈ l ↔ b ∈ s.lruList := hl.mem_iff
  refine ⟨h.whole, (hl.append_left _).trans h.lists, fun b hb c hc => ?_, fun b hb => ?_, fun b hb => ?_,
    fun b hb => ?_, fun n hn => ?_, fun n hn hall => ?_, h.free⟩
  · exact h.distinct b (hm.mp hb) c (hm.mp hc)
  · exact h.range b (hm.mp hb)
  · exact h.clean b (hm.mp hb)
  · exact h.content b (hm.mp hb)
  · obtain ⟨b, hb, hbn⟩ := h.held n hn
    exact ⟨b, hm.mpr hb, hbn⟩
  · exact h.away n hn fun b hb => hall b (hm.mpr hb)

/-- A block of the lru list changed under its number, with what belongs to that number. -/
theorem CacheInv.update (h : CacheInv s) (hb : b ∈ s.lruList) {k : Block} {d : Nat → Nat}
    {w : Nat → Nat → Nat} {u : Nat → Bool} (hk : k.blocknum = (s.blocks b).blocknum)
    (hd : ∀ m ≠ k.blocknum, ∀ i < s.blockSize, d (m * s.blockSize + i) = s.dev (m * s.blockSize + i))
    (hw : ∀ m ≠ k.blocknum, w m = s.written m) (hu : ∀ m ≠ k.blocknum, u m = s.unmarked m)
    (hc : ∀ i < s.blockSize, k.content i = w k.blocknum i) (hclean : k.isDirty = false → u k.blocknum = false →
      ∀ i < s.blockSize, d (k.blocknum * s.blockSize + i) = k.content i)
    (hheld : u k.blocknum = true → 0 < k.refCount) :
    CacheInv { s with dev := d, blocks := Function.update s.blocks b k, written := w, unmarked := u } := by
  have hnum : ∀ c, (Function.update s.blocks b k c).blocknum = (s.blocks c).blocknum := by
    intro c
    by_cases e : c = b
    · subst e
      rw [Function.update_self, hk]
    · rw [Function.update_of_ne e]
  have hne : ∀ c ∈ s.lruList, c ≠ b → (s.blocks c).blocknum ≠ k.blocknum := by
    intro c hc' e e'
    exact e (h.distinct c hc' b hb (e'.trans hk))
  refine ⟨h.whole, h.lists, fun c hc' c' hc'' => ?_, fun c hc' => ?_, fun c hc' => ?_, fun c hc' => ?_,
    fun m hm => ?_, fun m hm hall => ?_, fun c hf => ?_⟩
  · dsimp only
    rw [hnum, hnum]
    exact h.distinct c hc' c' hc''
  · show s.InDev (Function.update s.blocks b k c).blocknum
    rw [hnum]
    exact h.range c hc'
  · dsimp only
    by_cases e : c = b
    · subst e
      rw [Function.update_self]
      exact hclean
    · rw [Function.update_of_ne e, hu _ (hne c hc' e)]
      intro h1 h2 i hi
      rw [hd _ (hne c hc' e) i hi]
      exact h.clean c hc' h1 h2 i hi
  · dsimp only
    by_cases e : c = b
    · subst e
      rw [Function.update_self]
      exact hc
    · rw [Function.update_of_ne e, hw _ (hne c hc' e)]
      exact h.content c hc'
  · dsimp only at hm ⊢
    by_cases e : m = k.blocknum
    · subst e
      refine ⟨b, hb, ?_, ?_⟩ <;> rw [Function.update_self]
      exact hheld hm
    · rw [hu m e] at hm
      obtain ⟨c, hc', hcn, hr⟩ := h.held m hm
      have hcb : c ≠ b := by
        rintro rfl
        exact e (hcn.symm.trans hk.symm)
      refine ⟨c, hc', ?_⟩
      rw [Function.update_of_ne hcb]
      exact ⟨hcn, hr⟩
  · have hmk : m ≠ k.blocknum := by
      have := hall b hb
      dsimp only at this
      rw [Function.update_self] at this
      exact this.symm
    intro i hi
    dsimp only
    rw [hd m hmk i hi, hw m hmk]
    refine h.away m hm (fun c hc' => ?_) i hi
    have := hall c hc'
    dsimp only at this
    rwa [hnum] at this
  · dsimp only at hf ⊢
    have hcb : c ≠ b := by
      rintro rfl
      exact (List.nodup_append.mp h.nodup).2.2 c hf c hb rfl
    rw [Function.update_of_ne hcb]
    exact h.free c hf

theorem touch_perm (hb : b ∈ s.lruList) : (s.lruList.erase b ++ [b]).Perm s.lruList :=
  (List.perm_append_singleton b _).trans (List.perm_cons_erase hb).symm

theorem CacheInv.touch (h : CacheInv s) (hb : b ∈ s.lruList) : CacheInv (s.touch b) := h.reorder (touch_perm hb)

theorem findBlock_some (h : s.blockOf n = some b) : s.findBlock n = (s.touch b, some b) := by
  unfold Cache.blockOf at h
  unfold Cache.findBlock
  rw [h]

theorem findBlock_none (h : s.blockOf n = none) : s.findBlock n = (s, none) := by
  unfold Cache.blockOf at h
  unfold Cache.findBlock
  rw [h]

theorem blockOf_some (h : s.blockOf n = some b) : b ∈ s.lruList ∧ (s.blocks b).blocknum = n :=
  ⟨List.mem_of_find?_eq_some h, by simpa using List.find?_some h⟩

theorem blockOf_none (h : s.blockOf n = none) : ∀ c ∈ s.lruList, (s.blocks c).blocknum ≠ n := by
  intro c hc
  simpa using List.find?_eq_none.mp h c hc

/-! ## `flush_block` -/

theorem CacheInv.dirtied (h : CacheInv s) (hb : b ∈ s.lruList) (hd : (s.blocks b).isDirty = true)
    {d : Nat → Nat} (hf : ∀ m ≠ (s.blocks b).blocknum, ∀ i < s.blockSize,
      d (m * s.blockSize + i) = s.dev (m * s.blockSize + i)) : CacheInv { s with dev := d } := by
  have := h.update hb (k := s.blocks b) (d := d) (w := s.written) (u := s.unmarked) rfl hf (fun _ _ => rfl)
    (fun _ _ => rfl) (h.content b hb) (fun hc => absurd (hd.symm.trans hc) (by simp)) fun hu => by
      obtain ⟨c, hc, hcn, hr⟩ := h.held _ hu
      rwa [h.distinct c hc b hb hcn] at hr
  rwa [Function.update_eq_self] at this

theorem CacheInv.cleaned (h : CacheInv s) (hb : b ∈ s.lruList) {d : Nat → Nat}
    (hf : ∀ m ≠ (s.blocks b).blocknum, ∀ i < s.blockSize, d (m * s.blockSize + i) = s.dev (m * s.blockSize + i))
    (hw : ∀ i < s.blockSize, d ((s.blocks b).blocknum * s.blockSize + i) = (s.blocks b).content i) :
    CacheInv (({ s with dev := d } : Cache).setBlock b fun k => { k with isDirty := false }) :=
  h.update hb (k := { s.blocks b with isDirty := false }) (w := s.written) (u := s.unmarked) rfl hf
    (fun _ _ => rfl) (fun _ _ => rfl) (h.content b hb) (fun _ _ => hw) fun hu => by
      obtain ⟨c, hc, hcn, hr⟩ := h.held _ hu
      rwa [h.distinct c hc b hb hcn] at hr

/-! ## `alloc_block` -/

/-- the state `t` in which block `b` was taken for another number: its old contents are on the device -/
structure Taken (s t : Cache) (b : Nat) : Prop where
  lists : (t.freeList ++ t.lruList).Perm (List.range t.count)
  self : b ∈ t.lruList
  lru : ∀ c ≠ b, (c ∈ t.lruList ↔ c ∈ s.lruList)
  free : ∀ c ∈ t.freeList, c ∈ s.freeList
  blocks : ∀ c ≠ b, t.blocks c = s.blocks c
  spare : (t.blocks b).refCount = 0 ∧ (t.blocks b).isDirty = false
  old : b ∈ s.lruList → (s.blocks b).refCount = 0 ∧ ∀ i < s.blockSize,
    t.dev ((s.blocks b).blocknum * s.blockSize + i) = (s.blocks b).content i
  dev : ∀ m, (b ∈ s.lruList → m ≠ (s.blocks b).blocknum) → ∀ i < s.blockSize,
    t.dev (m * s.blockSize + i) = s.dev (m * s.blockSize + i)
  written : t.written = s.written
  unmarked : t.unmarked = s.unmarked
  blockSize : t.blockSize = s.blockSize
  devSize : t.devSize = s.devSize
  count : t.count = s.count
  whole : t.torn = s.torn

theorem Taken.free_ne {t : Cache} (ht : Taken s t b) {c : Nat} (hc : c ∈ t.freeList) : c ≠ b := by
  have hn : (t.freeList ++ t.lruList).Nodup := ht.lists.nodup_iff.mpr List.nodup_range
  rintro rfl
  exact (List.nodup_append.mp hn).2.2 c hc c ht.self rfl

/-- a block of the lru list that nobody holds has no store to come -/
theorem CacheInv.settled (h : CacheInv s) (hb : b ∈ s.lruList) (hr : (s.blocks b).refCount = 0) :
    s.unmarked (s.blocks b).blocknum = false := by
  by_contra hu
  obtain ⟨c, hc, hcn, hpos⟩ := h.held _ (by simpa using hu)
  rw [h.distinct c hc b hb hcn, hr] at hpos
  exact absurd hpos (Nat.lt_irrefl 0)

/-- **A block taken for another number.** -/
theorem CacheInv.bind (h : CacheInv s) {t : Cache} (ht : Taken s t b)
    (hn : ∀ c ∈ s.lruList, (s.blocks c).blocknum ≠ n) (hin : s.InDev n) {k : Block} (hk : k.blocknum = n)
    {w : Nat → Nat → Nat} (hw : ∀ m ≠ n, w m = s.written m) (hc : ∀ i < s.blockSize, k.content i = w n i)
    (hclean : k.isDirty = false → ∀ i < s.blockSize, t.dev (n * s.blockSize + i) = k.content i) :
    CacheInv { t with blocks := Function.update t.blocks b k, written := w } := by
  have hb : ∀ c ≠ b, Function.update t.blocks b k c = s.blocks c := fun c e => by
    rw [Function.update_of_ne e, ht.blocks c e]
  have hself : Function.update t.blocks b k b = k := Function.update_self ..
  refine ⟨ht.whole.trans h.whole, ht.lists, fun c hc' d hd => ?_, fun c hc' => ?_, fun c hc' => ?_,
    fun c hc' => ?_, fun m hm => ?_, fun m hm hall => ?_, fun c hf => ?_⟩
  · dsimp only
    by_cases e : c = b <;> by_cases e' : d = b
    · exact fun _ => e.trans e'.symm
    · subst e
      rw [hself, hb d e', hk]
      exact fun hnum => absurd hnum.symm (hn d ((ht.lru d e').mp hd))
    · subst e'
      rw [hself, hb c e, hk]
      exact fun hnum => absurd hnum (hn c ((ht.lru c e).mp hc'))
    · rw [hb c e, hb d e']
      exact h.distinct c ((ht.lru c e).mp hc') d ((ht.lru d e').mp hd)
  · show (Function.update t.blocks b k c).blocknum * t.blockSize + t.blockSize ≤ t.devSize
    rw [ht.blockSize, ht.devSize]
    by_cases e : c = b
    · subst e
      rw [hself, hk]
      exact hin
    · rw [hb c e]
      exact h.range c ((ht.lru c e).mp hc')
  · dsimp only
    rw [ht.blockSize, ht.unmarked]
    by_cases e : c = b
    · subst e
      rw [hself, hk]
      exact fun h1 _ => hclean h1
    · rw [hb c e]
      have hc'' := (ht.lru c e).mp hc'
      intro h1 h2 i hi
      rw [ht.dev _ (fun hbl e' => e (h.distinct c hc'' b hbl e')) i hi]
      exact h.clean c hc'' h1 h2 i hi
  · dsimp only
    rw [ht.blockSize]
    by_cases e : c = b
    · subst e
      rw [hself, hk]
      exact hc
    · rw [hb c e]
      have hc'' := (ht.lru c e).mp hc'
      rw [hw _ (hn c hc'')]
      exact h.content c hc''
  · dsimp only at hm ⊢
    rw [ht.unmarked] at hm
    obtain ⟨c, hc', hcn, hr⟩ := h.held m hm
    have e : c ≠ b := by
      rintro rfl
      have := (ht.old hc').1
      omega
    refine ⟨c, (ht.lru c e).mpr hc', ?_⟩
    rw [hb c e]
    exact ⟨hcn, hr⟩
  · dsimp only at hm hall ⊢
    change m * t.blockSize + t.blockSize ≤ t.devSize at hm
    rw [ht.blockSize, ht.devSize] at hm
    rw [ht.blockSize]
    have hmn : m ≠ n := by
      have := hall b ht.self
      rw [hself, hk] at this
      exact this.symm
    rw [hw m hmn]
    intro i hi
    by_cases hold : b ∈ s.lruList ∧ m = (s.blocks b).blocknum
    · obtain ⟨hbl, rfl⟩ := hold
      rw [(ht.old hbl).2 i hi]
      exact h.content b hbl i hi
    · rw [ht.dev m (fun hbl e => hold ⟨hbl, e⟩) i hi]
      refine h.away m hm (fun c hc' => ?_) i hi
      by_cases e : c = b
      · subst e
        exact fun e' => hold ⟨hc', e'.symm⟩
      · have := hall c ((ht.lru c e).mpr hc')
        rwa [hb c e] at this
  · dsimp only at hf ⊢
    rw [hb c (ht.free_ne hf)]
    exact h.free c (ht.free c hf)

theorem CacheInv.takeFree (h : CacheInv s) {fs : List Nat} (hf : s.freeList = b :: fs) :
    Taken s (({ s with freeList := fs, lruList := s.lruList ++ [b] } : Cache).setBlock b fun k =>
      { k with refCount := 0 }) b := by
  have hbf : b ∈ s.freeList := by
    rw [hf]
    simp
  have hnl : b ∉ s.lruList := fun hb => (List.nodup_append.mp h.nodup).2.2 b hbf b hb rfl
  refine ⟨?_, ?_, fun c e => ?_, fun c hc => ?_, fun c e => ?_, ?_, fun hb => absurd hb hnl,
    fun _ _ _ _ => rfl, rfl, rfl, rfl, rfl, rfl, rfl⟩
  · have hp := h.lists
    rw [hf] at hp
    refine List.Perm.trans ?_ hp
    show (fs ++ (s.lruList ++ [b])).Perm (b :: fs ++ s.lruList)
    rw [← List.append_assoc]
    exact List.perm_append_singleton b _
  · show b ∈ s.lruList ++ [b]
    simp
  · show c ∈ s.lruList ++ [b] ↔ _
    simp [e]
  · rw [hf]
    exact List.mem_cons_of_mem _ hc
  · exact Function.update_of_ne e _ _
  · show (Function.update s.blocks b _ b).refCount = 0 ∧ (Function.update s.blocks b _ b).isDirty = false
    rw [Function.update_self]
    exact ⟨rfl, (h.free b hbf).1⟩

/-- a block of the lru list that is clean and that nobody holds -/
theorem CacheInv.takeLru (h : CacheInv s) (hb : b ∈ s.lruList) (hr : (s.blocks b).refCount = 0)
    (hd : (s.blocks b).isDirty = false) : Taken s (s.touch b) b := by
  have hp := touch_perm hb
  exact ⟨(hp.append_left _).trans h.lists, hp.mem_iff.mpr hb, fun c _ => hp.mem_iff, fun c hc => hc,
    fun _ _ => rfl, ⟨hr, hd⟩, fun _ => ⟨hr, h.clean b hb hd (h.settled hb hr)⟩, fun _ _ _ _ => rfl, rfl, rfl, rfl,
    rfl, rfl, rfl⟩

/-- the same after its bytes were written -/
theorem CacheInv.takeFlushed (h : CacheInv s) (hb : b ∈ s.lruList) (hr : (s.blocks b).refCount = 0)
    {d : Nat → Nat} (hf : ∀ m ≠ (s.blocks b).blocknum, ∀ i < s.blockSize,
      d (m * s.blockSize + i) = s.dev (m * s.blockSize + i))
    (hw : ∀ i < s.blockSize, d ((s.blocks b).blocknum * s.blockSize + i) = (s.blocks b).content i) :
    Taken s ((({ s with dev := d } : Cache).setBlock b fun k => { k with isDirty := false }).touch b) b := by
  have hp := touch_perm hb
  refine ⟨(hp.append_left _).trans h.lists, hp.mem_iff.mpr hb, fun c _ => hp.mem_iff, fun c hc => hc,
    fun c e => Function.update_of_ne e _ _, ?_, fun _ => ⟨hr, hw⟩, fun m hm => hf m (hm hb), rfl, rfl, rfl,
    rfl, rfl, rfl⟩
  show (Function.update s.blocks b _ b).refCount = 0 ∧ (Function.update s.blocks b _ b).isDirty = false
  rw [Function.update_self]
  exact ⟨hr, rfl⟩

/-! ## what a call leaves alone -/

theorem Keeps.refl (h : CacheInv s) : Keeps s s :=
  ⟨fun _ hb hr => ⟨h.mem_lru hb (.inr hr), rfl⟩, fun _ _ hd => .inl ⟨hd, rfl⟩⟩

/-- changes that keep the lru list, the numbers and what is dirty -/
theorem Keeps.of (h : CacheInv s) (hl : s'.lruList.Perm s.lruList)
    (hn : ∀ b, (s'.blocks b).blocknum = (s.blocks b).blocknum)
    (hd : ∀ b, (s.blocks b).isDirty = true → (s'.blocks b).isDirty = true) : Keeps s s' :=
  ⟨fun b hb hr => ⟨hl.mem_iff.mpr (h.mem_lru hb (.inr hr)), hn b⟩, fun b _ hb => .inl ⟨hd b hb, hn b⟩⟩

theorem CacheInv.keeps_bind (h : CacheInv s) {t : Cache} (ht : Taken s t b) {k : Block}
    {w : Nat → Nat → Nat} : Keeps s { t with blocks := Function.update t.blocks b k, written := w } := by
  refine ⟨fun c hc hr => ?_, fun c hc hd => ?_⟩
  · have hl := h.mem_lru hc (.inr hr)
    have e : c ≠ b := by
      rintro rfl
      have := (ht.old hl).1
      omega
    refine ⟨(ht.lru c e).mpr hl, ?_⟩
    dsimp only
    rw [Function.update_of_ne e, ht.blocks c e]
  · have hl := h.mem_lru hc (.inl hd)
    by_cases e : c = b
    · subst e
      exact .inr (ht.old hl).2
    · left
      dsimp only
      rw [Function.update_of_ne e, ht.blocks c e]
      exact ⟨hd, rfl⟩

/-- one block changed after the call, with its number and no dirty bit lost -/
theorem Keeps.setBlock {t : Cache} {f : Block → Block} (h : Keeps s s') (hl : t.lruList = s'.lruList)
    (hdev : t.dev = s'.dev) (hb : t.blocks = Function.update s'.blocks b (f (s'.blocks b)))
    (hn : ∀ k, (f k).blocknum = k.blocknum) (hd : ∀ k, k.isDirty = true → (f k).isDirty = true) : Keeps s t := by
  have hn' : ∀ c, (t.blocks c).blocknum = (s'.blocks c).blocknum := by
    intro c
    rw [hb]
    by_cases e : c = b
    · subst e
      rw [Function.update_self, hn]
    · rw [Function.update_of_ne e]
  refine ⟨fun c hc hr => ?_, fun c hc hdc => ?_⟩
  · rw [hl, hn']
    exact h.held c hc hr
  · rw [hn', hdev]
    refine (h.dirty c hc hdc).imp_left fun h => ⟨?_, h.2⟩
    rw [hb]
    by_cases e : c = b
    · subst e
      rw [Function.update_self]
      exact hd _ h.1
    · rw [Function.update_of_ne e]
      exact h.1

theorem CacheInv.keeps_touch (h : CacheInv s) (hb : b ∈ s.lruList) : Keeps s (s.touch b) :=
  .of h (touch_perm hb) (fun _ => rfl) fun _ hd => hd

/-! ## the functions -/

/-- `alloc_block` takes a block, or a write failed, or every block is held -/
theorem allocBlock_cases (h : CacheInv s) (io : Io) : (∃ t b, s.allocBlock io = (t, some b) ∧ Taken s t b) ∨
      ∃ t, s.allocBlock io = (t, none) ∧ CacheInv t ∧ Keeps s t := by
  unfold Cache.allocBlock
  split
  · rename_i b fs hf
    exact .inl ⟨_, b, rfl, h.takeFree hf⟩
  · split
    · exact .inr ⟨s, rfl, h, .refl h⟩
    · rename_i b hfind
      have hb : b ∈ s.lruList := List.mem_of_find?_eq_some hfind
      have hr : (s.blocks b).refCount = 0 := by simpa using List.find?_some hfind
      split
      · rename_i hd
        obtain ⟨d, hf, he | ⟨he, hw⟩⟩ := flushBlock_cases io (h.range b hb)
        · rw [he]
          exact .inr ⟨_, rfl, h.dirtied hb hd hf,
            ⟨fun c hc hr => ⟨h.mem_lru hc (.inr hr), rfl⟩, fun c _ hd => .inl ⟨hd, rfl⟩⟩⟩
        · rw [he]
          exact .inl ⟨_, b, rfl, h.takeFlushed hb hr hf hw⟩
      · rename_i hd
        exact .inl ⟨_, b, rfl, h.takeLru hb hr (by simpa using hd)⟩

/-- **`find_or_fill_block`**: the block of `n`, with what was last written under it -/
theorem findOrFillBlock_spec (h : CacheInv s) (hg : s.blockOf n = none → s.InDev n ∧ io.readFails = false)
    {t : Cache} {r : Option Nat} (hs : s.findOrFillBlock io n = some (t, r)) :
    ∃ b, r = some b ∧ CacheInv t ∧ Keeps s t ∧ b ∈ t.lruList ∧ (t.blocks b).blocknum = n ∧
      t.written = s.written ∧ t.blockSize = s.blockSize := by
  unfold Cache.findOrFillBlock at hs
  cases hf : s.blockOf n with
  | some b =>
    rw [findBlock_some hf] at hs
    obtain ⟨hb, hbn⟩ := blockOf_some hf
    cases hs
    have hp := touch_perm hb
    exact ⟨b, rfl, h.touch hb, h.keeps_touch hb, hp.mem_iff.mpr hb, hbn, rfl, rfl⟩
  | none =>
    rw [findBlock_none hf] at hs
    obtain ⟨hin, hread⟩ := hg hf
    dsimp only at hs
    rcases allocBlock_cases h io with ⟨u, b, ha, ht⟩ | ⟨u, ha, -, -⟩
    · rw [ha] at hs
      have hlen : u.blockLen n = s.blockSize := by
        rw [← ht.blockSize]
        apply blockLen_eq
        unfold Cache.InDev
        rw [ht.blockSize, ht.devSize]
        exact hin
      -- the read succeeds: the buffer holds the bytes of the device
      obtain ⟨c, hc, hdata⟩ : ∃ c, u.bioRead io n (u.blocks b).content = (c, true) ∧
          ∀ i < s.blockSize, c i = u.dev (n * s.blockSize + i) := by
        unfold Cache.bioRead
        rw [hlen, hread]
        split
        · exact ⟨_, rfl, fun i hi => by omega⟩
        · refine ⟨_, rfl, fun i hi => ?_⟩
          rw [if_pos hi, ht.blockSize]
      dsimp only at hs
      rw [hc] at hs
      cases hs
      have hn := blockOf_none hf
      have hdev : ∀ i < s.blockSize, u.dev (n * s.blockSize + i) = s.written n i := fun i hi => by
        rw [ht.dev n (fun hb e => hn b hb e.symm) i hi]
        exact h.away n hin hn i hi
      have hk : Cache.setBlock u b (fun k => { k with blocknum := n, content := c }) =
          { u with blocks := Function.update u.blocks b { u.blocks b with blocknum := n, content := c }
                   written := s.written } := by
        unfold Cache.setBlock
        rw [← ht.written]
      rw [hk]
      refine ⟨b, rfl, h.bind ht hn hin rfl (fun _ _ => rfl) (fun i hi => ?_) (fun _ i hi => ?_),
        h.keeps_bind ht, ht.self, ?_, rfl, ht.blockSize⟩
      · show c i = _
        rw [hdata i hi, hdev i hi]
      · exact (hdata i hi).symm
      · dsimp only
        rw [Function.update_self]
    · rw [ha] at hs
      cases hs

theorem bcacheReadBlock_spec (h : CacheInv s) (hg : s.blockOf n = none → s.InDev n ∧ io.readFails = false)
    {out : Out} (hs : s.bcacheReadBlock io n = some (s', out)) :
    CacheInv s' ∧ Keeps s s' ∧ ∀ c, out = .data c → ∀ i < s.blockSize, c i = s.written n i := by
  obtain ⟨⟨t, r⟩, hr, e⟩ := Option.map_eq_some_iff.mp hs
  obtain ⟨b, rfl, ht, hk, hb, hbn, hw, hbs⟩ := findOrFillBlock_spec h hg hr
  cases e
  refine ⟨ht, hk, fun c e i hi => ?_⟩
  cases e
  have := ht.content b hb i (by rwa [hbs])
  rwa [hbn, hw] at this

theorem bcacheGetBlock_spec (h : CacheInv s) (hg : s.blockOf n = none → s.InDev n ∧ io.readFails = false)
    {out : Out} (hs : s.bcacheGetBlock io n = some (s', out)) :
    CacheInv s' ∧ Keeps s s' ∧ ∀ c, out = .data c → ∀ i < s.blockSize, c i = s.written n i := by
  obtain ⟨⟨t, r⟩, hr, e⟩ := Option.map_eq_some_iff.mp hs
  obtain ⟨b, rfl, ht, hk, hb, hbn, hw, hbs⟩ := findOrFillBlock_spec h hg hr
  cases e
  refine ⟨?_, ?_, fun c e i hi => ?_⟩
  · refine ht.update hb (k := { t.blocks b with refCount := (t.blocks b).refCount + 1 }) (d := t.dev)
      (w := t.written) (u := t.unmarked) rfl (fun _ _ _ _ => rfl) (fun _ _ => rfl) (fun _ _ => rfl)
      (ht.content b hb) (ht.clean b hb) fun _ => Nat.succ_pos _
  · exact hk.setBlock (f := fun k => { k with refCount := k.refCount + 1 }) rfl rfl rfl (fun _ => rfl)
      fun _ hd => hd
  · cases e
    have := ht.content b hb i (by rwa [hbs])
    rwa [hbn, hw] at this

theorem bcachePutBlock_spec (h : CacheInv s) {out : Out}
    (hu : ¬ (s.unmarked n ∧ (s.blockOf n).any (fun b => (s.blocks b).refCount = 1)))
    (hs : s.bcachePutBlock n = some (s', out)) : CacheInv s' ∧ Keeps s s' := by
  unfold Cache.bcachePutBlock at hs
  cases hf : s.blockOf n with
  | none =>
    rw [findBlock_none hf] at hs
    cases hs
  | some b =>
    rw [findBlock_some hf] at hs
    obtain ⟨hb, hbn⟩ := blockOf_some hf
    rw [hf, hbn.symm] at hu
    dsimp only at hs
    split at hs
    · cases hs
    · rename_i hr
      cases hs
      have ht := h.touch hb
      have hp := touch_perm hb
      refine ⟨?_, ?_⟩
      · refine ht.update (hp.mem_iff.mpr hb)
          (k := { s.blocks b with refCount := (s.blocks b).refCount - 1 }) (d := s.dev) (w := s.written)
          (u := s.unmarked) rfl (fun _ _ _ _ => rfl) (fun _ _ => rfl) (fun _ _ => rfl) (h.content b hb)
          (h.clean b hb) fun hun => ?_
        by_contra hz
        refine hu ⟨hun, ?_⟩
        have hr' : ¬ (s.blocks b).refCount = 0 := hr
        have h1 : (s.blocks b).refCount = 1 := by
          dsimp only at hz
          omega
        simp [h1]
      · exact (h.keeps_touch hb).setBlock (f := fun k => { k with refCount := k.refCount - 1 }) rfl rfl rfl
          (fun _ => rfl) fun _ hd => hd

theorem bcacheMarkBlockDirty_spec (h : CacheInv s) (n : Nat) :
    CacheInv (s.bcacheMarkBlockDirty n).1 ∧ Keeps s (s.bcacheMarkBlockDirty n).1 := by
  unfold Cache.bcacheMarkBlockDirty
  cases hf : s.blockOf n with
  | none =>
    rw [findBlock_none hf]
    exact ⟨h, .refl h⟩
  | some b =>
    rw [findBlock_some hf]
    obtain ⟨hb, rfl⟩ := blockOf_some hf
    have ht := h.touch hb
    have hp := touch_perm hb
    refine ⟨?_, ?_⟩
    · refine ht.update (hp.mem_iff.mpr hb) (k := { s.blocks b with isDirty := true }) (d := s.dev)
        (w := s.written) (u := Function.update s.unmarked (s.blocks b).blocknum false) rfl (fun _ _ _ _ => rfl)
        (fun _ _ => rfl) (fun m hm => Function.update_of_ne hm _ _) (h.content b hb)
        (fun hd => by cases hd) fun hu => ?_
      rw [Function.update_self] at hu
      cases hu
    · exact (h.keeps_touch hb).setBlock (f := fun k => { k with isDirty := true }) rfl rfl rfl (fun _ => rfl)
        fun _ _ => rfl

/-- `memset` of a block of the lru list under its number -/
theorem CacheInv.zeroed (h : CacheInv s) (hb : b ∈ s.lruList) (hbn : (s.blocks b).blocknum = n) :
    CacheInv (s.zeroed b n) := by
  subst hbn
  refine h.update hb (k := { s.blocks b with content := fun _ => 0, isDirty := true }) (d := s.dev)
    (w := Function.update s.written (s.blocks b).blocknum fun _ => 0) (u := s.unmarked) rfl
    (fun _ _ _ _ => rfl) (fun m hm => Function.update_of_ne hm _ _) (fun _ _ => rfl) (fun i _ => ?_)
    (fun hd => by cases hd) fun hu => ?_
  · rw [Function.update_self]
  · obtain ⟨c, hc, hcn, hr⟩ := h.held _ hu
    rwa [h.distinct c hc b hb hcn] at hr

theorem bcacheZeroBlock_spec (h : CacheInv s) (io : Io) (hg : s.blockOf n = none → s.InDev n) :
    CacheInv (s.bcacheZeroBlock io n).1 ∧ Keeps s (s.bcacheZeroBlock io n).1 := by
  unfold Cache.bcacheZeroBlock
  cases hf : s.blockOf n with
  | some b =>
    rw [findBlock_some hf]
    obtain ⟨hb, hbn⟩ := blockOf_some hf
    have hp := touch_perm hb
    refine ⟨(h.touch hb).zeroed (hp.mem_iff.mpr hb) hbn, ?_⟩
    exact (h.keeps_touch hb).setBlock (f := fun k => { k with content := fun _ => 0, isDirty := true }) rfl rfl
      rfl (fun _ => rfl) fun _ _ => rfl
  | none =>
    rw [findBlock_none hf]
    dsimp only
    rcases allocBlock_cases h io with ⟨t, b, ha, ht⟩ | ⟨t, ha, hi, hk⟩
    · rw [ha]
      have hk : (Cache.setBlock t b fun k => { k with blocknum := n }).zeroed b n =
          { t with blocks := Function.update t.blocks b
                    { t.blocks b with blocknum := n, content := fun _ => 0, isDirty := true }
                   written := Function.update s.written n fun _ => 0 } := by
        unfold Cache.zeroed Cache.setBlock
        dsimp only
        rw [Function.update_self, Function.update_idem, ht.written]
      dsimp only
      rw [hk]
      refine ⟨h.bind ht (blockOf_none hf) (hg hf) rfl (fun m hm => Function.update_of_ne hm _ _) (fun i _ => ?_)
        (fun hd => by cases hd), h.keeps_bind ht⟩
      rw [Function.update_self]
    · rw [ha]
      exact ⟨hi, hk⟩

theorem store_spec (h : CacheInv s) (hf : s.blockOf n = some b) (hr : (s.blocks b).refCount ≠ 0)
    (c : Nat → Nat) : CacheInv (s.store b n c) ∧ Keeps s (s.store b n c) := by
  obtain ⟨hb, rfl⟩ := blockOf_some hf
  refine ⟨?_, ?_⟩
  · refine h.update hb (k := { s.blocks b with content := c }) (d := s.dev)
      (w := Function.update s.written (s.blocks b).blocknum c)
      (u := Function.update s.unmarked (s.blocks b).blocknum true) rfl (fun _ _ _ _ => rfl)
      (fun m hm => Function.update_of_ne hm _ _) (fun m hm => Function.update_of_ne hm _ _) (fun i _ => ?_)
      (fun _ hu => ?_) fun _ => Nat.pos_of_ne_zero hr
    · rw [Function.update_self]
    · rw [Function.update_self] at hu
      cases hu
  · exact (Keeps.refl h).setBlock (f := fun k => { k with content := c }) rfl rfl rfl (fun _ => rfl)
      fun _ hd => hd

/-! ## `bcache_flush` -/

/-- some blocks flushed: a block that was dirty still is, or its bytes are on the device -/
structure Flushed (s t : Cache) : Prop where
  inv : CacheInv t
  lru : t.lruList = s.lruList
  blockSize : t.blockSize = s.blockSize
  blocks : ∀ b, (t.blocks b).blocknum = (s.blocks b).blocknum ∧ (t.blocks b).content = (s.blocks b).content
  dirty : ∀ b ∈ s.lruList, (s.blocks b).isDirty = true → (t.blocks b).isDirty = true ∨
    ∀ i < s.blockSize, t.dev ((s.blocks b).blocknum * s.blockSize + i) = (s.blocks b).content i

theorem Flushed.refl (h : CacheInv s) : Flushed s s := ⟨h, rfl, rfl, fun _ => ⟨rfl, rfl⟩, fun _ _ hd => .inl hd⟩

theorem Flushed.flush {t : Cache} (h : CacheInv s) (ht : Flushed s t) (io : Io) (hb : b ∈ t.lruList)
    (hd : (t.blocks b).isDirty = true) : Flushed s (t.flushBlock io b).1 := by
  have hbs := hb
  rw [ht.lru] at hbs
  obtain ⟨hbn, hbc⟩ := ht.blocks b
  obtain ⟨d, hf, he⟩ := flushBlock_cases io (ht.inv.range b hb)
  -- the bytes of the other blocks stay where they are
  have hother : ∀ c ∈ s.lruList, c ≠ b → (∀ i < s.blockSize,
      t.dev ((s.blocks c).blocknum * s.blockSize + i) = (s.blocks c).content i) →
      ∀ i < s.blockSize, d ((s.blocks c).blocknum * s.blockSize + i) = (s.blocks c).content i := by
    intro c hc e hdev i hi
    have hne : (s.blocks c).blocknum ≠ (t.blocks b).blocknum := by
      rw [hbn]
      exact fun e' => e (h.distinct c hc b hbs e')
    have := hf _ hne i (by rwa [ht.blockSize])
    rw [ht.blockSize] at this
    rw [this]
    exact hdev i hi
  rcases he with he | ⟨he, hw⟩
  · rw [he]
    refine ⟨ht.inv.dirtied hb hd hf, ht.lru, ht.blockSize, ht.blocks, fun c hc hdc => ?_⟩
    by_cases e : c = b
    · subst e
      exact .inl hd
    · exact (ht.dirty c hc hdc).imp_right (hother c hc e)
  · rw [he]
    refine ⟨ht.inv.cleaned hb hf hw, ht.lru, ht.blockSize, fun c => ?_, fun c hc hdc => ?_⟩
    · show (Function.update t.blocks b _ c).blocknum = _ ∧ (Function.update t.blocks b _ c).content = _
      by_cases e : c = b
      · subst e
        rw [Function.update_self]
        exact ht.blocks c
      · rw [Function.update_of_ne e]
        exact ht.blocks c
    · by_cases e : c = b
      · subst e
        right
        intro i hi
        have := hw i (by rwa [ht.blockSize])
        rwa [hbn, hbc, ht.blockSize] at this
      · rcases ht.dirty c hc hdc with hdt | hdev
        · left
          show (Function.update t.blocks b _ c).isDirty = true
          rw [Function.update_of_ne e]
          exact hdt
        · exact .inr (hother c hc e hdev)

theorem flushLoop_spec (h : CacheInv s) (io : Io) (l : List Nat) :
    ∀ {t}, Flushed s t → (∀ b ∈ l, b ∈ s.lruList) → Flushed s (Cache.flushLoop io l t).1 := by
  induction l with
  | nil => exact fun ht _ => ht
  | cons b l ih =>
    intro t ht hl
    have hb : b ∈ t.lruList := by
      rw [ht.lru]
      exact hl b (by simp)
    have hl' : ∀ c ∈ l, c ∈ s.lruList := fun c hc => hl c (by simp [hc])
    rw [Cache.flushLoop]
    split
    · rename_i hd
      have h1 := ht.flush h io hb hd
      dsimp only
      split
      · exact ih h1 hl'
      · exact h1
    · exact ih ht hl'

theorem bcacheFlush_spec (h : CacheInv s) (io : Io) :
    CacheInv (s.bcacheFlush io).1 ∧ Keeps s (s.bcacheFlush io).1 := by
  have ht := flushLoop_spec h io s.lruList (.refl h) fun _ hb => hb
  refine ⟨ht.inv, fun b hb hr => ?_, fun b hb hd => ?_⟩
  · refine ⟨?_, (ht.blocks b).1⟩
    show b ∈ (Cache.flushLoop io s.lruList s).1.lruList
    rw [ht.lru]
    exact h.mem_lru hb (.inr hr)
  · exact (ht.dirty b (h.mem_lru hb (.inl hd)) hd).imp_left fun hd => ⟨hd, (ht.blocks b).1⟩

/-! ## every run -/

theorem CacheInv.step (h : CacheInv s) {op : Op} {out : Out} (hg : BcacheGuard s op)
    (hs : bcacheStep s op = some (s', out)) : CacheInv s' ∧ StepOk s op s' out := by
  unfold bcacheStep at hs
  rw [h.whole] at hs
  cases op with
  | read io n =>
    obtain ⟨h1, h2, h3⟩ := bcacheReadBlock_spec h hg hs
    exact ⟨h1, h2, fun c m hc hm => by cases hm; exact h3 c hc⟩
  | get io n =>
    obtain ⟨h1, h2, h3⟩ := bcacheGetBlock_spec h hg hs
    exact ⟨h1, h2, fun c m hc hm => by cases hm; exact h3 c hc⟩
  | put n =>
    simp only [Bool.false_eq_true, if_false] at hs
    split at hs
    · cases hs
    · rename_i hu
      obtain ⟨h1, h2⟩ := bcachePutBlock_spec h hu hs
      exact ⟨h1, h2, fun c m _ hm => by cases hm⟩
  | markDirty n =>
    obtain rfl := congrArg Prod.fst (Option.some.inj hs)
    obtain ⟨h1, h2⟩ := bcacheMarkBlockDirty_spec h n
    exact ⟨h1, h2, fun c m _ hm => by cases hm⟩
  | zero io n =>
    obtain rfl := congrArg Prod.fst (Option.some.inj hs)
    obtain ⟨h1, h2⟩ := bcacheZeroBlock_spec h io hg
    exact ⟨h1, h2, fun c m _ hm => by cases hm⟩
  | flush io =>
    obtain rfl := congrArg Prod.fst (Option.some.inj hs)
    obtain ⟨h1, h2⟩ := bcacheFlush_spec h io
    exact ⟨h1, h2, fun c m _ hm => by cases hm⟩
  | store n c =>
    simp only [Bool.false_eq_true, if_false] at hs
    split at hs
    · cases hs
    · rename_i b hf
      split at hs
      · cases hs
      · rename_i hr
        cases hs
        obtain ⟨h1, h2⟩ := store_spec h hf hr c
        exact ⟨h1, h2, fun c m _ hm => by cases hm⟩

theorem CacheInv.run (hr : bcacheSys.Run BcacheGuard s) : CacheInv s := by
  refine hr.invariant (fun _ h0 => .boot h0) fun s op s' h hg hs => ?_
  obtain ⟨out, hs⟩ := hs
  exact (h.step hg hs).1

/-- **Consistency of the block cache.** -/
theorem bcache_consistent (hr : bcacheSys.Run BcacheGuard s) : Listed s ∧
    ∀ op s' out, BcacheGuard s op → bcacheStep s op = some (s', out) → StepOk s op s' out :=
  ⟨(CacheInv.run hr).listed, fun _ _ _ hg hs => ((CacheInv.run hr).step hg hs).2⟩

end
/-! ## runs on a small cache -/

/-- `n` blocks of one byte over a device of four -/
def smallCache (n : Nat) : Cache where
  blockSize := 1
  count := n
  devSize := 4
  dev i := 10 + i
  blocks _ := ⟨0, 0, false, fun _ => 0⟩
  freeList := (List.range n).reverse
  lruList := []
  torn := false
  written n i := 10 + (n * 1 + i)
  unmarked _ := false

theorem smallCache_boot (n : Nat) : Boot (smallCache n) :=
  ⟨rfl, rfl, rfl, fun _ _ => ⟨rfl, rfl⟩, fun _ _ => rfl, fun _ => rfl⟩

/-- a device that does what it is asked -/
def goodIo : Io := ⟨fun _ => false, false, fun _ => 0⟩

/-- a device that cannot read -/
def badIo : Io := ⟨fun _ => false, true, fun _ => 0⟩

/-- the theorem with one block in the cache, zeroed and written back for another -/
theorem bcache_consistent_evict : ∃ s s' c,
    Cache.bcacheZeroBlock (smallCache 1) goodIo 3 = (s, .ok) ∧ s.dev 3 = 13 ∧
    bcacheStep s (.get goodIo 2) = some (s', .data c) ∧ c 0 = 12 ∧ s'.dev 3 = 0 ∧
    Listed s' ∧ StepOk s (.get goodIo 2) s' (.data c) := by
  have h0 : bcacheSys.Run BcacheGuard (smallCache 1) := .init (smallCache_boot 1)
  have h1 : bcacheSys.Run BcacheGuard (Cache.bcacheZeroBlock (smallCache 1) goodIo 3).1 :=
    .step (a := .zero goodIo 3) h0 (fun _ => by decide) ⟨_, rfl⟩
  have hg : BcacheGuard (Cache.bcacheZeroBlock (smallCache 1) goodIo 3).1 (.get goodIo 2) :=
    fun _ => ⟨by decide, rfl⟩
  obtain ⟨s', c, hs, hc, hd⟩ : ∃ s' c,
      bcacheStep (Cache.bcacheZeroBlock (smallCache 1) goodIo 3).1 (.get goodIo 2) = some (s', .data c) ∧
        c 0 = 12 ∧ s'.dev 3 = 0 := ⟨_, _, rfl, rfl, rfl⟩
  have h2 : bcacheSys.Run BcacheGuard s' := .step (a := .get goodIo 2) h1 hg ⟨_, hs⟩
  exact ⟨_, s', c, rfl, rfl, hs, hc, hd, (bcache_consistent h2).1, (bcache_consistent h1).2 _ _ _ hg hs⟩

/-- **A read that fails.**  The block goes to the free list without leaving the lru list. -/
theorem bcache_consistent_fails : ¬ ∀ s, bcacheSys.Reach s → Listed s ∧
    ∀ op s' out, bcacheStep s op = some (s', out) → StepOk s op s' out := by
  intro h
  have h0 : bcacheSys.Reach (smallCache 1) := .init (smallCache_boot 1)
  obtain ⟨s, out, hs, hl⟩ : ∃ s out, bcacheStep (smallCache 1) (.read badIo 2) = some (s, out) ∧
      s.freeList ++ s.lruList = [0, 0] ∧ s.count = 1 := ⟨_, _, rfl, rfl, rfl⟩
  have hp := (h s (.step (a := .read badIo 2) h0 trivial ⟨out, hs⟩)).1.lists
  rw [hl.1, hl.2] at hp
  exact absurd hp.length_eq (by decide)

end Bcache
end LkHv
