import LkHv.Kernel.Err
import LkHv.Kernel.Word
import LkHv.Lib.Linked
import LkHv.Lib.Ring
import Mathlib.Data.List.Perm.Basic

/-!
# Virtio rings (`dev/virtio/virtio.c`, `dev/virtio/virtio_ring.h`)

A ring with the memory it shares with the device.  The address and the length of a descriptor are left out.

* `virtioFreeDesc`, `virtioAllocDesc`, `virtioAllocDescChain`, `virtioSubmitChain`, `virtioAllocRing`
* `virtioBlockIrqDriverCallback`, `virtioMmioIrqRing`   a used element given back; the loop of `virtio_mmio_irq`
* `Vring.Layout`           the descriptors are the free list and the chains of some heads;
* `Layout.pop`, `Layout.splice`, `Layout.giveBack`   what each of them does to the lists;
* `virtioMmioIrqRing_spec`  the loop gives back what it has not seen yet, if that is not a whole ring.
-/

namespace LkHv

/-- this descriptor goes on in `next` -/
def VRING_DESC_F_NEXT : Nat := 1
/-- this descriptor is for the device to write -/
def VRING_DESC_F_WRITE : Nat := 2

/-- `struct vring_desc` -/
structure VringDesc where
  flags : Nat
  next : Nat

/-- `struct vring_used_elem` -/
structure VringUsedElem where
  id : Nat
  len : Nat
deriving DecidableEq

/-- the memory of a ring, as `virtio_alloc_ring` gets it -/
structure VringMem where
  desc : Nat → VringDesc
  availIdx : Nat
  availRing : Nat → Nat
  usedIdx : Nat
  usedRing : Nat → VringUsedElem

/-- `struct vring`; a free list that ends is `0xffff` -/
structure Vring extends VringMem where
  num : Nat
  numMask : Nat
  freeList : Nat
  freeCount : Nat
  lastUsed : Nat

/-- `vring_init` -/
def vringInit (num : Nat) (p : VringMem) : Vring :=
  { p with num := num, numMask := valpow2 (log2Uint num) - 1, freeList := 0xffff, freeCount := 0, lastUsed := 0 }

def ispow2 (val : Nat) : Bool := (sub32 val 1 &&& val) == 0

def virtioFreeDesc (r : Vring) (descIndex : Nat) : Vring :=
  { r with
    desc := Function.update r.desc descIndex { r.desc descIndex with next := r.freeList }
    freeList := descIndex
    freeCount := (r.freeCount + 1) % 2 ^ 16 }

/-- the first descriptor of the free list taken off, and `d` written to it -/
def takeFree (r : Vring) (d : VringDesc) : Vring :=
  { r with
    desc := Function.update r.desc r.freeList d
    freeList := (r.desc r.freeList).next
    freeCount := (r.freeCount + (2 ^ 16 - 1)) % 2 ^ 16 }

def virtioAllocDesc (r : Vring) : Nat × Vring :=
  if r.freeCount = 0 then (0xffff, r) else (r.freeList, takeFree r (r.desc r.freeList))

/-- the loop of `virtio_alloc_desc_chain`; `last` is `NULL` on the first pass -/
def popChain : Nat → Option Nat → Vring → Option Nat × Vring
  | 0, last, r => (last, r)
  | count + 1, last, r =>
    let d : VringDesc := match last with
      | some lastIndex => ⟨VRING_DESC_F_NEXT, lastIndex⟩
      | none => ⟨0, 0⟩
    popChain count (some r.freeList) (takeFree r d)

/-- the index of the first descriptor, `none` for `NULL` -/
def virtioAllocDescChain (r : Vring) (count : Nat) : Option Nat × Vring :=
  if r.freeCount < count then (none, r) else popChain count none r

/-- a pass of the scatter-gather loop of `virtio_block_read_write`, `desc` the last descriptor filled in: a
descriptor is allocated and put behind it.  `none` if the assertion on the allocated index fails. -/
def spliceDesc (r : Vring) (desc : Nat) (write : Bool) : Option Vring :=
  let (nextI, r) := virtioAllocDesc r
  if nextI = 0xffff then none
  else
    let flags := (if write then 0 else VRING_DESC_F_WRITE) ||| VRING_DESC_F_NEXT
    let descs := Function.update r.desc nextI ⟨flags, (r.desc desc).next⟩
    some { r with desc := Function.update descs desc { descs desc with next := nextI } }

def virtioSubmitChain (r : Vring) (descIndex : Nat) : Vring :=
  { r with
    availRing := Function.update r.availRing (r.availIdx &&& r.numMask) descIndex
    availIdx := (r.availIdx + 1) % 2 ^ 16 }

/-- `p` is the memory that was allocated for the ring, `none` if there was none -/
def virtioAllocRing (len : Nat) (p : Option VringMem) : Except Int Vring :=
  if len = 0 ∨ ¬ ispow2 len then .error ERR_INVALID_ARGS
  else match p with
    | none => .error ERR_NO_MEMORY
    | some p => .ok ((List.range len).foldl virtioFreeDesc (vringInit len p))

/-- the loop of `virtio_block_irq_driver_callback`, which the callbacks of the other drivers share -/
def freeChain : Nat → Vring → Nat → Option Vring
  | 0, _, _ => none
  | fuel + 1, r, i =>
    let desc := r.desc i
    let r' := virtioFreeDesc r i
    if desc.flags &&& VRING_DESC_F_NEXT ≠ 0 then freeChain fuel r' desc.next else some r'

def virtioBlockIrqDriverCallback (r : Vring) (e : VringUsedElem) : Option Vring := freeChain r.num r (e.id % 2 ^ 16)

/-- the used elements from `i` up to `cur_idx`; with the elements the callback was called with -/
def irqLoop (curIdx : Nat) : Nat → Nat → Vring → List VringUsedElem → Option (Vring × List VringUsedElem)
  | 0, _, _, _ => none
  | fuel + 1, i, r, log =>
    if i = curIdx &&& r.numMask then some (r, log)
    else
      let usedElem := r.usedRing i
      (virtioBlockIrqDriverCallback r usedElem).bind fun r' =>
        irqLoop curIdx fuel ((i + 1) &&& r'.numMask) { r' with lastUsed := (r'.lastUsed + 1) &&& r'.numMask }
          (log ++ [usedElem])

/-- what `virtio_mmio_irq` does with one active ring -/
def virtioMmioIrqRing (r : Vring) : Option (Vring × List VringUsedElem) := irqLoop r.usedIdx r.num r.lastUsed r []

namespace Vring

/-! ## the lists -/

/-- an index of the free list -/
def ptr (i : Nat) : Option Nat := if i = 0xffff then none else some i

/-- the link of the free list -/
def nextFree (r : Vring) (i : Nat) : Option Nat := ptr (r.desc i).next

/-- the link of a chain -/
def nextDesc (r : Vring) (i : Nat) : Option Nat :=
  if (r.desc i).flags &&& VRING_DESC_F_NEXT ≠ 0 then some (r.desc i).next else none

/-- the descriptors of the chain of `i` -/
def chainFrom (r : Vring) : Nat → Nat → List Nat
  | 0, _ => []
  | fuel + 1, i => i :: if (r.desc i).flags &&& VRING_DESC_F_NEXT ≠ 0 then chainFrom r fuel (r.desc i).next else []

/-- **The descriptors are partitioned** into the free list and the chains of `heads`, and the count is right. -/
structure Layout (r : Vring) (heads free : List Nat) (chain : Nat → List Nat) : Prop where
  links : Linked r.nextFree (ptr r.freeList) free
  chains : ∀ h ∈ heads, Linked r.nextDesc (some h) (chain h)
  parts : (free ++ heads.flatMap chain).Perm (List.range r.num)
  count : r.freeCount = free.length

/-- the indices of both rings are left as they are -/
def SameRings (r r' : Vring) : Prop :=
  r' = { r with desc := r'.desc, freeList := r'.freeList, freeCount := r'.freeCount }

/-- a chain is left as it is by a write to another descriptor -/
theorem nextDesc_of_ne {r r' : Vring} {i : Nat} {l : List Nat} {o : Option Nat} (h : Linked r.nextDesc o l)
    {d : VringDesc} (hr : r'.desc = Function.update r.desc i d) (hi : i ∉ l) : Linked r'.nextDesc o l := by
  apply h.congr
  intro a ha
  have hne : a ≠ i := fun e => hi (e ▸ ha)
  rw [nextDesc, nextDesc, hr, Function.update_of_ne hne]

theorem flatMap_update {heads : List Nat} {chain : Nat → List Nat} {i : Nat} {c : List Nat} (hi : i ∉ heads) :
    heads.flatMap (Function.update chain i c) = heads.flatMap chain := by
  apply List.flatMap_congr
  intro h hh
  have hne : h ≠ i := fun e => hi (e ▸ hh)
  rw [Function.update_of_ne hne]

namespace Layout
variable {r : Vring} {heads free : List Nat} {chain : Nat → List Nat} {i j : Nat}

theorem nodup (L : Layout r heads free chain) : (free ++ heads.flatMap chain).Nodup :=
  L.parts.nodup_iff.mpr List.nodup_range

theorem lt (L : Layout r heads free chain) {i : Nat} (h : i ∈ free ++ heads.flatMap chain) : i < r.num :=
  List.mem_range.mp (L.parts.mem_iff.mp h)

theorem lt_free (L : Layout r heads free chain) {i : Nat} (h : i ∈ free) : i < r.num :=
  L.lt (List.mem_append_left _ h)

theorem lt_chain (L : Layout r heads free chain) {h i : Nat} (hh : h ∈ heads) (hi : i ∈ chain h) : i < r.num :=
  L.lt (List.mem_append_right _ (List.mem_flatMap.mpr ⟨h, hh, hi⟩))

theorem lt_head (L : Layout r heads free chain) {h : Nat} (hh : h ∈ heads) : h < r.num :=
  L.lt_chain hh (L.chains h hh).head_mem

theorem free_length_le (L : Layout r heads free chain) : free.length ≤ r.num := by
  have h := L.parts.length_eq
  rw [List.length_append, List.length_range] at h
  omega

/-- a chain has a descriptor at least -/
theorem heads_length_le (L : Layout r heads free chain) : heads.length ≤ r.num := by
  have h := L.parts.length_eq
  rw [List.length_append, List.length_range] at h
  suffices hl : heads.length ≤ (heads.flatMap chain).length by lia
  have hc := L.chains
  clear h L
  induction heads with
  | nil => exact Nat.zero_le _
  | cons a heads ih =>
    have h1 := List.length_pos_iff.mpr (hc a (.head _)).ne_nil
    have h2 := ih fun h hh => hc h (.tail a hh)
    rw [List.flatMap_cons, List.length_append, List.length_cons]
    lia

theorem heads_perm (L : Layout r heads free chain) {heads' : List Nat} (h : heads.Perm heads') :
    Layout r heads' free chain where
  links := L.links
  chains a ha := L.chains a (h.mem_iff.mpr ha)
  parts := ((h.flatMap_right chain).append_left free).symm.trans L.parts
  count := L.count

/-- only the descriptors, the free list and its count matter -/
theorem frame (L : Layout r heads free chain) {r' : Vring} (hd : r'.desc = r.desc) (hf : r'.freeList = r.freeList)
    (hc : r'.freeCount = r.freeCount) (hn : r'.num = r.num) : Layout r' heads free chain := by
  have h1 : r'.nextFree = r.nextFree := by
    funext i
    rw [nextFree, nextFree, hd]
  have h2 : r'.nextDesc = r.nextDesc := by
    funext i
    rw [nextDesc, nextDesc, hd]
  constructor
  · rw [h1, hf]
    exact L.links
  · rw [h2]
    exact L.chains
  · rw [hn]
    exact L.parts
  · rw [hc, L.count]

/-- the chains of different heads share nothing -/
theorem disjoint_head (L : Layout r (i :: heads) free chain) {a b : Nat} (ha : a ∈ chain i) (hb : b ∈ heads) :
    a ∉ chain b := by
  intro hab
  have h := (List.nodup_append.mp L.nodup).2.1
  rw [List.flatMap_cons] at h
  have hd := (List.nodup_append.mp h).2.2 a ha a (List.mem_flatMap.mpr ⟨b, hb, hab⟩)
  exact hd rfl

theorem not_mem_free_of_chain (L : Layout r heads free chain) {h a : Nat} (hh : h ∈ heads) (ha : a ∈ chain h) :
    a ∉ free := by
  intro hf
  have hd := (List.nodup_append.mp L.nodup).2.2 a hf a (List.mem_flatMap.mpr ⟨h, hh, ha⟩)
  exact hd rfl

theorem chain_nodup (L : Layout r (i :: heads) free chain) : (chain i).Nodup := by
  have h := (List.nodup_append.mp L.nodup).2.1
  rw [List.flatMap_cons] at h
  exact (List.nodup_append.mp h).1

theorem head_not_mem (L : Layout r (i :: heads) free chain) : i ∉ heads := by
  intro h
  exact L.disjoint_head (L.chains i (.head _)).head_mem h (L.chains i (.head _)).head_mem

/-! ## taking from the free list -/

theorem freeList_eq (L : Layout r heads (i :: free) chain) : r.freeList = i := by
  have h := L.links.1
  unfold ptr at h
  split at h
  · cases h
  · exact Option.some.inj h

theorem not_mem_free (L : Layout r heads (i :: free) chain) : i ∉ free := by
  have h := (List.nodup_append.mp L.nodup).1
  exact (List.nodup_cons.mp h).1

theorem not_mem_chain (L : Layout r heads (i :: free) chain) {h : Nat} (hh : h ∈ heads) : i ∉ chain h := by
  intro hi
  have hd := (List.nodup_append.mp L.nodup).2.2 i (.head free) i (List.mem_flatMap.mpr ⟨h, hh, hi⟩)
  exact hd rfl

theorem not_mem_heads (L : Layout r heads (i :: free) chain) : i ∉ heads :=
  fun h => L.not_mem_chain h (L.chains i h).head_mem

/-- the first free descriptor taken; it and the other descriptors go where `heads'` and `chain'` say -/
theorem take (L : Layout r heads (i :: free) chain) (hn : r.num ≤ 2 ^ 15) {r' : Vring}
    (hd : ∀ a ∈ free, r'.desc a = r.desc a) (hf : r'.freeList = (r.desc i).next)
    (hr : r'.freeCount = (r.freeCount + (2 ^ 16 - 1)) % 2 ^ 16) (hm : r'.num = r.num)
    {heads' : List Nat} {chain' : Nat → List Nat} (hc : ∀ h ∈ heads', Linked r'.nextDesc (some h) (chain' h))
    (hp : (heads'.flatMap chain').Perm (i :: heads.flatMap chain)) : Layout r' heads' free chain' where
  links := by
    rw [hf]
    apply L.links.2.congr
    intro a ha
    rw [nextFree, nextFree, hd a ha]
  chains := hc
  parts := by
    have h : (free ++ (i :: heads.flatMap chain)).Perm (i :: free ++ heads.flatMap chain) := List.perm_middle
    rw [hm]
    exact ((hp.append_left free).trans h).trans L.parts
  count := by
    have h := L.count
    have hl := L.free_length_le
    rw [List.length_cons] at h hl
    lia

theorem take_desc (L : Layout r heads (i :: free) chain) (d : VringDesc) {a : Nat} (ha : a ∈ free) :
    (takeFree r d).desc a = r.desc a := by
  have hne : a ≠ r.freeList := fun e => L.not_mem_free (L.freeList_eq ▸ e ▸ ha)
  exact Function.update_of_ne hne _ _

/-- the first pass of `virtio_alloc_desc_chain` -/
theorem take_first (L : Layout r heads (i :: free) chain) (hn : r.num ≤ 2 ^ 15) :
    Layout (takeFree r ⟨0, 0⟩) (i :: heads) free (Function.update chain i [i]) := by
  have hi := L.freeList_eq
  apply L.take hn (fun a => L.take_desc _) (congrArg (fun i => (r.desc i).next) hi) rfl rfl
  · intro h hh
    rcases List.mem_cons.mp hh with rfl | hh
    · rw [Function.update_self]
      refine ⟨rfl, ?_⟩
      show nextDesc _ _ = none
      unfold nextDesc takeFree
      rw [← hi]
      simp
    · have hne : h ≠ i := fun e => L.not_mem_heads (e ▸ hh)
      rw [Function.update_of_ne hne]
      exact nextDesc_of_ne (L.chains h hh) rfl (hi ▸ L.not_mem_chain hh)
  · rw [List.flatMap_cons, Function.update_self, flatMap_update L.not_mem_heads]
    exact List.Perm.refl _

/-- a later pass: the descriptor taken goes before the last one -/
theorem take_next (L : Layout r (j :: heads) (i :: free) chain) (hn : r.num ≤ 2 ^ 15) :
    Layout (takeFree r ⟨VRING_DESC_F_NEXT, j⟩) (i :: heads) free (Function.update chain i (i :: chain j)) := by
  have hi := L.freeList_eq
  apply L.take hn (fun a => L.take_desc _) (congrArg (fun i => (r.desc i).next) hi) rfl rfl
  · intro h hh
    rcases List.mem_cons.mp hh with rfl | hh
    · rw [Function.update_self]
      refine ⟨rfl, ?_⟩
      have hnx : nextDesc (takeFree r ⟨VRING_DESC_F_NEXT, j⟩) h = some j := by
        unfold nextDesc takeFree
        rw [← hi]
        simp [VRING_DESC_F_NEXT]
      rw [hnx]
      exact nextDesc_of_ne (L.chains j (.head _)) rfl (hi ▸ L.not_mem_chain (.head _))
    · have hh' : h ∈ j :: heads := .tail j hh
      have hne : h ≠ i := fun e => L.not_mem_heads (e ▸ hh')
      rw [Function.update_of_ne hne]
      exact nextDesc_of_ne (L.chains h hh') rfl (hi ▸ L.not_mem_chain hh')
  · rw [List.flatMap_cons, Function.update_self, flatMap_update fun hm =>
      L.not_mem_heads (.tail j hm)]
    exact List.Perm.refl _

theorem popChain_spec (n : Nat) : ∀ {r : Vring} {free : List Nat} {chain : Nat → List Nat} {j : Nat},
    Layout r (j :: heads) free chain → r.num ≤ 2 ^ 15 → n ≤ free.length →
    ∃ h r' free' chain', popChain n (some j) r = (some h, r') ∧ SameRings r r' ∧
      Layout r' (h :: heads) free' chain' := by
  induction n with
  | zero =>
    intro r free chain j L _ _
    exact ⟨j, r, free, chain, rfl, rfl, L⟩
  | succ n ih =>
    intro r free chain j L hn hl
    cases free with
    | nil => cases hl
    | cons i free =>
      have hl' : n ≤ free.length := Nat.le_of_succ_le_succ hl
      obtain ⟨h, r', free', chain', hp, hs, L'⟩ := ih (L.take_next hn) hn hl'
      refine ⟨h, r', free', chain', ?_, ?_, L'⟩
      · rw [popChain, L.freeList_eq]
        exact hp
      · rw [SameRings, hs]
        rfl

/-- **`virtio_alloc_desc_chain`** makes a new chain of free descriptors, or changes nothing. -/
theorem alloc (L : Layout r heads free chain) (hn : r.num ≤ 2 ^ 15) (count : Nat) :
    virtioAllocDescChain r count = (none, r) ∨
    ∃ h r' free' chain', virtioAllocDescChain r count = (some h, r') ∧ SameRings r r' ∧
      Layout r' (h :: heads) free' chain' := by
  unfold virtioAllocDescChain
  split
  · exact .inl rfl
  · rename_i hc
    rw [L.count] at hc
    cases count with
    | zero => exact .inl rfl
    | succ n =>
      cases free with
      | nil => exact absurd (Nat.succ_pos n) hc
      | cons i free =>
        have hl : n ≤ free.length := Nat.le_of_succ_le_succ (Nat.le_of_not_lt hc)
        obtain ⟨h, r', free', chain', hp, hs, L'⟩ := popChain_spec n (L.take_first hn) hn hl
        refine .inr ⟨h, r', free', chain', ?_, ?_, L'⟩
        · rw [popChain, L.freeList_eq]
          exact hp
        · rw [SameRings, hs]
          rfl

/-- **A descriptor spliced into a chain**, behind one that goes on. -/
theorem splice (L : Layout r (j :: heads) free chain) (hn : r.num ≤ 2 ^ 15) {d : Nat} (hd : d ∈ chain j)
    (hx : r.nextDesc d ≠ none) {write : Bool} {r' : Vring} (h : spliceDesc r d write = some r') :
    ∃ free' chain', SameRings r r' ∧ Layout r' (j :: heads) free' chain' := by
  have hflag : (r.desc d).flags &&& VRING_DESC_F_NEXT ≠ 0 := by
    intro e
    exact hx (if_neg fun h => h e)
  have hnx : r.nextDesc d = some (r.desc d).next := if_pos hflag
  cases free with
  | nil =>
    have hc : r.freeCount = 0 := L.count
    rw [spliceDesc, virtioAllocDesc, if_pos hc] at h
    cases h
  | cons i free =>
    have hc : r.freeCount ≠ 0 := by
      rw [L.count]
      exact Nat.succ_ne_zero _
    have hi := L.freeList_eq
    have hlt : i ≠ 0xffff := by
      have := L.lt_free (List.mem_cons_self)
      omega
    have hdi : d ≠ i := fun e => L.not_mem_chain (.head _) (e ▸ hd)
    have hkeep : (takeFree r (r.desc r.freeList)).desc = r.desc := Function.update_eq_self _ _
    rw [spliceDesc, virtioAllocDesc, if_neg hc] at h
    simp only [hi] at h hkeep
    rw [if_neg hlt] at h
    simp only [hkeep, Function.update_of_ne hdi] at h
    have hr := (Option.some.inj h).symm
    have hself : r'.desc d = ⟨(r.desc d).flags, i⟩ := by
      rw [hr]
      exact Function.update_self _ _ _
    have hnew : r'.desc i = ⟨(if write then 0 else VRING_DESC_F_WRITE) ||| VRING_DESC_F_NEXT, (r.desc d).next⟩ := by
      rw [hr]
      show Function.update _ d _ i = _
      rw [Function.update_of_ne hdi.symm, Function.update_self]
    have hother : ∀ a, a ≠ d → a ≠ i → r'.desc a = r.desc a := by
      intro a h1 h2
      rw [hr]
      show Function.update _ d _ a = _
      rw [Function.update_of_ne h1, Function.update_of_ne h2]
    have hlink : ∀ a, a ≠ d → a ≠ i → r'.nextDesc a = r.nextDesc a := by
      intro a h1 h2
      rw [nextDesc, nextDesc, hother a h1 h2]
    refine ⟨free, Function.update chain j (Linked.insertAfter d i (chain j)), ?_, ?_⟩
    · rw [SameRings, hr]
      rfl
    · have hji : i ∉ chain j := L.not_mem_chain (.head _)
      apply L.take hn
      · intro a ha
        apply hother a
        · rintro rfl
          exact L.not_mem_free_of_chain (.head _) hd (.tail i ha)
        · rintro rfl
          exact L.not_mem_free ha
      · rw [hr]
        exact congrArg (fun i => (r.desc i).next) hi
      · rw [hr]
        rfl
      · rw [hr]
        rfl
      · intro h hh
        rcases List.mem_cons.mp hh with rfl | hh'
        · rw [Function.update_self]
          apply (L.chains h (.head _)).splice L.chain_nodup hd hji
          · intro c hc hcd
            exact hlink c hcd fun e => hji (e ▸ hc)
          · rw [nextDesc, hself]
            exact if_pos hflag
          · rw [nextDesc, hnew, hnx]
            apply if_pos
            rw [Nat.and_or_distrib_right]
            cases write <;> decide
        · have hne : h ≠ j := fun e => L.head_not_mem (e ▸ hh')
          rw [Function.update_of_ne hne]
          apply (L.chains h hh).congr
          intro a ha
          apply hlink a
          · rintro rfl
            exact L.disjoint_head hd hh' ha
          · rintro rfl
            exact L.not_mem_chain hh ha
      · rw [List.flatMap_cons, List.flatMap_cons, Function.update_self, flatMap_update L.head_not_mem]
        exact (Linked.insertAfter_perm i hd).append_right _

/-! ## giving a chain back -/

theorem chain_congr (L : Layout r heads free chain) {chain' : Nat → List Nat} (h : ∀ a ∈ heads, chain' a = chain a) :
    Layout r heads free chain' where
  links := L.links
  chains a ha := by
    rw [h a ha]
    exact L.chains a ha
  parts := by
    rw [List.flatMap_congr h]
    exact L.parts
  count := L.count

/-- the first descriptor of a chain freed; what is left of the chain goes where `heads'` and `chain'` say -/
theorem give (L : Layout r (i :: heads) free chain) (hn : r.num ≤ 2 ^ 15)
    {heads' : List Nat} {chain' : Nat → List Nat}
    (hc : ∀ h ∈ heads', Linked (virtioFreeDesc r i).nextDesc (some h) (chain' h))
    (hp : (i :: heads'.flatMap chain').Perm ((i :: heads).flatMap chain)) :
    Layout (virtioFreeDesc r i) heads' (i :: free) chain' := by
  have hi : i ∈ chain i := (L.chains i (.head _)).head_mem
  have hif : i ∉ free := L.not_mem_free_of_chain (.head _) hi
  have hlt : i < r.num := L.lt_head (.head _)
  have hparts : (i :: free ++ heads'.flatMap chain').Perm (List.range r.num) := by
    have h : (free ++ (i :: heads'.flatMap chain')).Perm (i :: free ++ heads'.flatMap chain') := List.perm_middle
    exact (h.symm.trans (hp.append_left free)).trans L.parts
  refine ⟨⟨?_, ?_⟩, hc, hparts, ?_⟩
  · show ptr i = some i
    exact if_neg (by lia)
  · have hself : (virtioFreeDesc r i).nextFree i = ptr r.freeList := by
      show ptr (Function.update r.desc i _ i).next = ptr r.freeList
      rw [Function.update_self]
    rw [hself]
    apply L.links.congr
    intro a ha
    have hne : a ≠ i := fun e => hif (e ▸ ha)
    show ptr (Function.update r.desc i _ a).next = ptr (r.desc a).next
    rw [Function.update_of_ne hne]
  · have hl := hparts.length_eq
    rw [List.length_append, List.length_cons, List.length_range] at hl
    have hcount := L.count
    show (r.freeCount + 1) % 2 ^ 16 = free.length + 1
    lia

/-- the rest of the chain of `i` -/
theorem rest (L : Layout r (i :: heads) free chain) {c : List Nat} (hc : chain i = i :: c) :
    Linked (virtioFreeDesc r i).nextDesc (r.nextDesc i) c ∧
    ∀ h ∈ heads, Linked (virtioFreeDesc r i).nextDesc (some h) (chain h) := by
  constructor
  · have h := L.chains i (.head _)
    rw [hc] at h
    have hnd := (List.nodup_append.mp L.nodup).2.1
    rw [List.flatMap_cons, hc] at hnd
    exact nextDesc_of_ne h.2 rfl (List.nodup_cons.mp (List.nodup_append.mp hnd).1).1
  · intro h hh
    exact nextDesc_of_ne (L.chains h (.tail i hh)) rfl (L.disjoint_head (hc ▸ .head c) hh)

/-- the first descriptor of a chain freed: the one behind it is then the head, or that was all -/
theorem giveFirst (L : Layout r (i :: heads) free chain) (hn : r.num ≤ 2 ^ 15) {c : List Nat}
    (hc : chain i = i :: c) : ((r.desc i).flags &&& VRING_DESC_F_NEXT ≠ 0 → (r.desc i).next ∉ heads ∧
      Layout (virtioFreeDesc r i) ((r.desc i).next :: heads) (i :: free) (Function.update chain (r.desc i).next c)) ∧
    (¬ (r.desc i).flags &&& VRING_DESC_F_NEXT ≠ 0 →
      c = [] ∧ Layout (virtioFreeDesc r i) heads (i :: free) chain) := by
  obtain ⟨hrest, hothers⟩ := L.rest hc
  constructor
  · intro hx
    have hnx : r.nextDesc i = some (r.desc i).next := if_pos hx
    rw [hnx] at hrest
    have hk : (r.desc i).next ∉ heads := by
      intro hk
      have hmem : (r.desc i).next ∈ chain i := by
        rw [hc]
        exact .tail i hrest.head_mem
      exact L.disjoint_head hmem hk (L.chains _ (.tail i hk)).head_mem
    refine ⟨hk, L.give hn ?_ ?_⟩
    · intro h hh
      rcases List.mem_cons.mp hh with rfl | hh
      · rw [Function.update_self]
        exact hrest
      · have hne : h ≠ (r.desc i).next := fun e => hk (e ▸ hh)
        rw [Function.update_of_ne hne]
        exact hothers h hh
    · rw [List.flatMap_cons, List.flatMap_cons, Function.update_self, flatMap_update hk, hc]
      exact List.Perm.refl _
  · intro hx
    have hnx : r.nextDesc i = none := if_neg hx
    rw [hnx] at hrest
    obtain rfl : c = [] := by
      cases c with
      | nil => rfl
      | cons b c => cases hrest.1
    refine ⟨rfl, L.give hn hothers ?_⟩
    rw [List.flatMap_cons, hc]
    exact List.Perm.refl _

/-- **The callback gives the whole chain back.** -/
theorem giveBack (c : List Nat) : ∀ {r : Vring} {i : Nat} {free : List Nat} {chain : Nat → List Nat} {fuel : Nat},
    Layout r (i :: heads) free chain → r.num ≤ 2 ^ 15 → chain i = c → c.length ≤ fuel →
    ∃ r' free', freeChain fuel r i = some r' ∧ SameRings r r' ∧ Layout r' heads free' chain := by
  induction c with
  | nil =>
    intro r i free chain fuel L _ hc _
    exact absurd hc (L.chains i (.head _)).ne_nil
  | cons a c ih =>
    intro r i free chain fuel L hn hc hf
    obtain rfl : i = a := by
      have h := L.chains i (.head _)
      rw [hc] at h
      exact Option.some.inj h.1
    obtain ⟨hnext, hlast⟩ := L.giveFirst hn hc
    cases fuel with
    | zero => cases hf
    | succ fuel =>
      have hf' : c.length ≤ fuel := Nat.le_of_succ_le_succ hf
      by_cases hx : (r.desc i).flags &&& VRING_DESC_F_NEXT ≠ 0
      · obtain ⟨hk, L1⟩ := hnext hx
        obtain ⟨r', free', hr, hs, L'⟩ := ih L1 hn (Function.update_self _ _ _) hf'
        refine ⟨r', free', ?_, ?_, L'.chain_congr ?_⟩
        · rw [freeChain, if_pos hx]
          exact hr
        · rw [SameRings, hs]
          rfl
        · intro h hh
          have hne : h ≠ (r.desc i).next := fun e => hk (e ▸ hh)
          rw [Function.update_of_ne hne]
      · obtain ⟨rfl, L'⟩ := hlast hx
        refine ⟨virtioFreeDesc r i, i :: free, ?_, rfl, L'⟩
        rw [freeChain, if_neg hx]

/-! ## writes to a descriptor -/

/-- flags written to a descriptor that goes on, or ends, as before -/
theorem fill (L : Layout r heads free chain) {d flags : Nat}
    (h : flags &&& VRING_DESC_F_NEXT = (r.desc d).flags &&& VRING_DESC_F_NEXT) :
    Layout { r with desc := Function.update r.desc d { r.desc d with flags := flags } } heads free chain := by
  have hcases : ∀ a, (Function.update r.desc d { r.desc d with flags := flags } a).next = (r.desc a).next ∧
      (Function.update r.desc d { r.desc d with flags := flags } a).flags &&& VRING_DESC_F_NEXT =
        (r.desc a).flags &&& VRING_DESC_F_NEXT := by
    intro a
    by_cases e : a = d
    · subst e
      rw [Function.update_self]
      exact ⟨rfl, h⟩
    · rw [Function.update_of_ne e]
      exact ⟨rfl, rfl⟩
  refine ⟨L.links.congr fun a _ => ?_, fun k hk => (L.chains k hk).congr fun a _ => ?_, L.parts, L.count⟩
  · exact congrArg ptr (hcases a).1
  · unfold nextDesc
    rw [(hcases a).1, (hcases a).2]

theorem chain_length_le (L : Layout r heads free chain) {h : Nat} (hh : h ∈ heads) : (chain h).length ≤ r.num := by
  have hl := L.parts.length_eq
  rw [List.length_append, List.length_range] at hl
  have hs : (chain h).length ≤ (heads.flatMap chain).length := by
    obtain ⟨l, m, rfl⟩ := List.append_of_mem hh
    rw [List.flatMap_append, List.flatMap_cons, List.length_append, List.length_append]
    lia
  lia

end Layout

theorem chainFrom_eq {r : Vring} {l : List Nat} : ∀ {i fuel : Nat}, Linked r.nextDesc (some i) l → l.length ≤ fuel →
    r.chainFrom fuel i = l := by
  induction l with
  | nil =>
    intro i fuel h
    cases (h : some i = none)
  | cons a l ih =>
    intro i fuel h hf
    obtain rfl : i = a := Option.some.inj h.1
    cases fuel with
    | zero => cases hf
    | succ fuel =>
      have hf' : l.length ≤ fuel := Nat.le_of_succ_le_succ hf
      have h2 := h.2
      unfold nextDesc at h2
      rw [chainFrom]
      by_cases hx : (r.desc i).flags &&& VRING_DESC_F_NEXT ≠ 0
      · rw [if_pos hx] at h2
        rw [if_pos hx, ih h2 hf']
      · rw [if_neg hx] at h2
        rw [if_neg hx]
        cases l with
        | nil => rfl
        | cons b l => cases h2.1

/-! ## a new ring -/

/-- the free list after some descriptors of a new ring -/
theorem freeAll_spec (r : Vring) (hf : r.freeList = 0xffff) (hc : r.freeCount = 0) (k : Nat) (hk : k ≤ 2 ^ 15) :
    ∃ r', (List.range k).foldl virtioFreeDesc r = r' ∧
      Linked r'.nextFree (ptr r'.freeList) (List.range k).reverse ∧ r'.freeCount = k ∧ SameRings r r' := by
  induction k with
  | zero =>
    refine ⟨r, rfl, ?_, hc, rfl⟩
    show ptr r.freeList = none
    exact if_pos hf
  | succ k ih =>
    obtain ⟨r1, hr, hl, hn, hs⟩ := ih (by lia)
    rw [List.range_succ, List.foldl_append, List.reverse_append, hr]
    have hk' : ptr k = some k := if_neg (by lia)
    refine ⟨virtioFreeDesc r1 k, rfl, ⟨hk', ?_⟩, ?_, ?_⟩
    · have hself : (virtioFreeDesc r1 k).nextFree k = ptr r1.freeList := by
        show ptr (Function.update r1.desc k _ k).next = ptr r1.freeList
        rw [Function.update_self]
      show Linked _ ((virtioFreeDesc r1 k).nextFree k) (List.range k).reverse
      rw [hself]
      apply hl.congr
      intro a ha
      have hne : a ≠ k := by
        have := List.mem_range.mp (List.mem_reverse.mp ha)
        lia
      show ptr (Function.update r1.desc k _ a).next = ptr (r1.desc a).next
      rw [Function.update_of_ne hne]
    · show (r1.freeCount + 1) % 2 ^ 16 = k + 1
      lia
    · rw [SameRings, hs]
      rfl

/-- **The sizes of rings** are the powers of two of 16 bits. -/
theorem ispow2_iff {len : Nat} (h0 : len ≠ 0) (h : len < 2 ^ 16) : ispow2 len ↔ ∃ k ≤ 15, len = 2 ^ k := by
  have hs : sub32 len 1 = len - 1 := sub32_of_le (by lia) (by lia)
  rw [ispow2, beq_iff_eq, hs, Nat.and_comm, Nat.and_sub_one_eq_zero_iff_isPowerOfTwo h0]
  constructor
  · rintro ⟨k, rfl⟩
    refine ⟨k, ?_, rfl⟩
    exact Nat.le_of_lt_succ ((Nat.pow_lt_pow_iff_right (by decide)).mp h)
  · rintro ⟨k, _, rfl⟩
    exact ⟨k, rfl⟩

theorem virtioAllocRing_spec {len : Nat} (hlen : len < 2 ^ 16) {p : VringMem} {r : Vring}
    (h : virtioAllocRing len (some p) = .ok r) :
    (∃ k ≤ 15, len = 2 ^ k) ∧ SameRings (vringInit len p) r ∧ ∀ chain, ∃ free, Layout r [] free chain := by
  unfold virtioAllocRing at h
  split at h
  · cases h
  · rename_i hok
    obtain ⟨h0, hp⟩ := not_or.mp hok
    have hk := (ispow2_iff h0 hlen).mp (not_not.mp hp)
    obtain ⟨k, hk, rfl⟩ := hk
    have hle : 2 ^ k ≤ 2 ^ 15 := Nat.pow_le_pow_right (by decide) hk
    obtain ⟨r', hr, hl, hn, hs⟩ := freeAll_spec (vringInit (2 ^ k) p) rfl rfl (2 ^ k) hle
    obtain rfl : r' = r := hr.symm.trans (Except.ok.inj h)
    refine ⟨⟨k, hk, rfl⟩, hs, fun chain => ⟨_, hl, fun h hh => (List.not_mem_nil hh).elim, ?_, ?_⟩⟩
    · rw [List.flatMap_nil, List.append_nil, hs]
      exact List.reverse_perm _
    · rw [hn, List.length_reverse, List.length_range]

/-! ## the interrupt -/

/-- the loop gives the chains back one after the other -/
theorem irqLoop_spec {N : Nat} (hN : N ≤ 2 ^ 15) (pend : List VringUsedElem) :
    ∀ {r : Vring} {heads free : List Nat} {chain : Nat → List Nat} {n i : Nat} {l : List VringUsedElem} {c : Nat},
      Layout r (pend.map (·.id) ++ heads) free chain → r.num = N → (∀ x, x &&& r.numMask = x % N) →
      r.lastUsed = i → i < N → c % N = (i + pend.length) % N → pend.length < N → pend.length < n →
      Ring.window r.usedRing N i pend.length = pend → ∃ r' free', irqLoop c n i r l = some (r', l ++ pend) ∧
        SameRings { r with lastUsed := (i + pend.length) % N } r' ∧ Layout r' heads free' chain := by
  induction pend with
  | nil =>
    intro r heads free chain n i l c L hn hm hu hi hcur _ hf _
    have hcur' : c % N = i := by
      rw [hcur]
      exact Nat.mod_eq_of_lt hi
    cases n with
    | zero => cases hf
    | succ n =>
      refine ⟨r, free, ?_, ?_, L⟩
      · rw [irqLoop, hm, hcur', if_pos rfl, List.append_nil]
      · have hi' : (i + ([] : List VringUsedElem).length) % N = r.lastUsed := by
          rw [hu]
          exact Nat.mod_eq_of_lt hi
        rw [SameRings, hi']
  | cons e pend ih =>
    intro r heads free chain n i l c L hn hm hu hi hcur hlt hf hw
    have hlen : (e :: pend).length = pend.length + 1 := rfl
    rw [hlen] at hcur hlt hf hw
    rw [Ring.window_succ _ _ _ _ hi] at hw
    obtain ⟨he, hw⟩ := List.cons_eq_cons.mp hw
    cases n with
    | zero => cases hf
    | succ n =>
      have hne : i ≠ c % N := by
        rw [hcur]
        have h := Ring.mod_ne (N := N) (t := i) (show 0 < pend.length + 1 by lia) (by lia)
        rw [Nat.add_zero, Nat.mod_eq_of_lt hi] at h
        exact h
      have hid : e.id < r.num := L.lt_head (List.mem_append_left _ (.head _))
      have hid' : e.id % 2 ^ 16 = e.id := Nat.mod_eq_of_lt (by lia)
      obtain ⟨r1, free1, hr1, hs1, L1⟩ := L.giveBack (chain e.id) (hn ▸ hN) rfl
        (L.chain_length_le (List.mem_append_left _ (.head _)))
      have hm1 : ∀ x, x &&& r1.numMask = x % N := by
        rw [hs1]
        exact hm
      have L2 : Layout { r1 with lastUsed := (i + 1) % N } (pend.map (·.id) ++ heads) free1 chain :=
        L1.frame rfl rfl rfl rfl
      have hnum : r1.num = N := by
        rw [hs1]
        exact hn
      have hused : r1.usedRing = r.usedRing := by
        rw [hs1]
      have hlast : r1.lastUsed = i := by
        rw [hs1]
        exact hu
      obtain ⟨r', free', hr', hs', L'⟩ := ih (n := n) (i := (i + 1) % N) (l := l ++ [e]) (c := c)
        L2 hnum hm1 rfl (Nat.mod_lt _ (by lia))
        (by rw [hcur, Nat.mod_add_mod, Nat.add_right_comm, Nat.add_assoc]) (by lia) (by lia) (by
          rw [hused]
          exact hw)
      refine ⟨r', free', ?_, ?_, L'⟩
      · have hcb : virtioBlockIrqDriverCallback r e = some r1 := by
          rw [virtioBlockIrqDriverCallback, hid', hr1]
        rw [irqLoop, hm, if_neg hne]
        simp only [he, hcb, Option.bind_some, hm1, hlast]
        rw [hr', List.append_assoc, List.singleton_append]
      · have hidx : ((i + 1) % N + pend.length) % N = (i + (e :: pend).length) % N := by
          rw [Nat.mod_add_mod, hlen, Nat.add_right_comm, Nat.add_assoc]
        rw [SameRings, hs', hidx]
        dsimp only
        rw [hs1]

end Vring
end LkHv
