import LkHv.Stage2.System

/-!
# TLB coherence of the edits

The calls of `arch_mem_map` and `arch_mem_unmap` go round by round here, so that the rounds of several VMs
and the loads of VTTBRs come in any order.

* `TlbOk`         a translation the TLBs hold is one of the tables of its VMID's VM, or that VM's flush is
                  pending;
* `FlushReaches`  the `tlbi ipas2e1is` of `mem_pte_set` hits what went through the old entry;
* `tlb_coherent`  under this guard a VM that is not locked has no stale translation.
-/

namespace LkHv
open Radix

section
variable {V : Type} {cfg : Config}

/-! ## what the TLBs hold -/

/-- some VM with this VMID translates the page so, or has a flush pending -/
def Held (cfg : Config) (mem : PhysMem) (am : V → ArchVmMem) (flush : V → Bool) (vmid k p : Nat) :
    Prop :=
  ∃ v, (am v).st2Table ≠ 0 ∧ hwVmid cfg (am v).vttbr = vmid ∧ PAGE_SIZE * k < cfg.ipaLimit ∧
    (flush v = true ∨ pageWalk cfg mem (am v).vttbr k = some p)

structure TlbOk (cfg : Config) (s : Hv) (am : V → ArchVmMem) (flush : V → Bool) : Prop where
  distinct : ∀ v w, (am v).st2Table ≠ 0 → (am w).st2Table ≠ 0 →
    hwVmid cfg (am v).vttbr = hwVmid cfg (am w).vttbr → v = w
  held : ∀ vmid k p, s.tlb vmid k p → Held cfg s.mem am flush vmid k p
  bbm : s.bbm

theorem pageWalk_congr {mem mem' : PhysMem} {vttbr vttbr' k : Nat}
    (h : leafWalk cfg mem' vttbr' k = leafWalk cfg mem vttbr k) :
    pageWalk cfg mem' vttbr' k = pageWalk cfg mem vttbr k := by
  rw [pageWalk, pageWalk, h]

/-- the walkers find translations of the VMs -/
theorem walkable_held {s : Hv} {am : V → ArchVmMem} (flush : V → Bool)
    (hl : ∀ w ∈ s.vttbrEl2 :: s.others, w = 0 ∨ ∃ v, (am v).st2Table ≠ 0 ∧ w = (am v).vttbr)
    {vmid k p : Nat} (h : s.Walkable cfg vmid k p) : Held cfg s.mem am flush vmid k p := by
  obtain ⟨w, hw, hh, hk, hp⟩ := h
  rcases hl w hw with rfl | ⟨v, hv, rfl⟩
  · rw [pageWalk, leafWalk_zero] at hp
    cases hp
  · exact ⟨v, hv, hh, hk, .inr hp⟩

/-- a change that moves no translation; VMs may get a root -/
theorem TlbOk.quiet {s s' : Hv} {am am' : V → ArchVmMem} {lab : Nat → Option (Label V)}
    {flush : V → Bool} (h : TlbOk cfg s am flush) (ht : Tables cfg s am lab) (hq : Quiet cfg lab s s')
    (hs : SameWalks cfg s s' am am') (ha : ∀ v, (am v).st2Table ≠ 0 → am' v = am v)
    (hd : ∀ v w, (am' v).st2Table ≠ 0 → (am' w).st2Table ≠ 0 →
      hwVmid cfg (am' v).vttbr = hwVmid cfg (am' w).vttbr → v = w) : TlbOk cfg s' am' flush where
  distinct := hd
  held vmid k p hp := by
    have hh : Held cfg s.mem am flush vmid k p :=
      (hq.tlb vmid k p hp).elim (h.held vmid k p) (walkable_held flush ht.loaded)
    obtain ⟨v, hv, hvm, hk, hw⟩ := hh
    refine ⟨v, by rwa [ha v hv], by rwa [ha v hv], hk, hw.imp id fun hw => ?_⟩
    rw [pageWalk_congr (hs v k (span_of_limit hk)), hw]
  bbm := by
    rw [hq.bbm]
    exact h.bbm

/-- the VMID the hardware sees of a root -/
theorem Tables.hwVmid_rooted {s : Hv} {am : V → ArchVmMem} {lab : Nat → Option (Label V)}
    (h : Tables cfg s am lab) {v : V} (hv : (am v).st2Table ≠ 0) :
    hwVmid cfg (am v).vttbr = (am v).vmid % 2 ^ cfg.vmidBits := by
  obtain ⟨r, hr⟩ := h.rooted hv
  have hlt := (h.root_lt hr).2
  rw [hwVmid, hr.vttbr]
  congr 1
  rw [PAGE_SIZE]
  lia

/-! ## `pte_get` -/

variable [DecidableEq V]

/-- no VM with a root has the VMID that `get_vmid` gives next -/
def VmidFresh (cfg : Config) (s : Hv) (am : V → ArchVmMem) : Prop :=
  ∀ w, (am w).st2Table ≠ 0 → hwVmid cfg (am w).vttbr ≠ s.baseVmid % 2 ^ 16 % 2 ^ cfg.vmidBits

/-- `pte_get` gives a root to a VM that has none, and only then touches the VM -/
theorem pteGet_root {s : Hv} {am : V → ArchVmMem} {lab : Nat → Option (Label V)} {v : V}
    (h : Tables cfg s am lab) (hc : (am v).st2Table = 0 → RootClean cfg s) (ipa level : Nat) :
    ((am v).st2Table ≠ 0 → (pteGet cfg s (am v) ipa level).2.1 = am v) ∧
      ((am v).st2Table = 0 → (pteGet cfg s (am v) ipa level).2.1.st2Table ≠ 0 →
        hwVmid cfg (pteGet cfg s (am v) ipa level).2.1.vttbr
          = s.baseVmid % 2 ^ 16 % 2 ^ cfg.vmidBits) := by
  have hsame : ∀ s' a, (pteGetRoot cfg s' a ipa level).2.1 = a := by
    intro s' a
    rw [pteGetRoot]
    split <;> rfl
  rw [pteGet]
  split
  · rename_i hv
    refine ⟨fun hn => absurd hv hn, fun _ hroot => ?_⟩
    obtain ⟨lab', ht, -, hret⟩ := initSt2Root_spec h hv (hc hv)
    rcases hret with ⟨hz, -, hne, hvm, -⟩ | ⟨hnz, hn, -, -⟩
    · rw [if_neg (by simpa using hz), hsame, ← hvm]
      have := ht.hwVmid_rooted (v := v) (by rwa [Function.update_self])
      rwa [Function.update_self] at this
    · rw [if_pos hnz] at hroot
      exact absurd hn.table hroot
  · rename_i hv
    exact ⟨fun _ => hsame _ _, fun hz => absurd hz hv⟩

theorem pteGet_tlb {s : Hv} {am : V → ArchVmMem} {lab : Nat → Option (Label V)} {v : V}
    {flush : V → Bool} (h : Tables cfg s am lab) (hc : (am v).st2Table = 0 → RootClean cfg s)
    (hf : (am v).st2Table = 0 → VmidFresh cfg s am) (ht : TlbOk cfg s am flush) (ipa : Nat) {d : Nat}
    (hd : d ≤ 1) :
    TlbOk cfg (pteGet cfg s (am v) ipa (3 - d)).1
      (Function.update am v (pteGet cfg s (am v) ipa (3 - d)).2.1) flush := by
  obtain ⟨lab', -, he, hs, -⟩ := pteGet_spec (v := v) h hc ipa hd
  obtain ⟨hold, hnew⟩ := pteGet_root (v := v) h hc ipa (3 - d)
  refine ht.quiet h he.quiet hs (fun w hw => ?_) fun w u hw hu e => ?_
  · by_cases ew : w = v
    · rw [ew, Function.update_self, hold (ew ▸ hw)]
    · rw [Function.update_of_ne ew]
  · by_cases hv : (am v).st2Table = 0
    · -- a new root has a VMID of its own
      by_cases ew : w = v
      · by_cases eu : u = v
        · rw [ew, eu]
        · rw [ew, Function.update_self] at hw e
          rw [Function.update_of_ne eu] at hu e
          rw [hnew hv hw] at e
          exact absurd e.symm (hf hv u hu)
      · by_cases eu : u = v
        · rw [eu, Function.update_self] at hu e
          rw [Function.update_of_ne ew] at hw e
          rw [hnew hv hu] at e
          exact absurd e (hf hv w hw)
        · rw [Function.update_of_ne ew] at hw e
          rw [Function.update_of_ne eu] at hu e
          exact ht.distinct w u hw hu e
    · rw [hold hv, Function.update_eq_self] at hw hu e
      exact ht.distinct w u hw hu e

/-! ## `mem_pte_set` -/

/-- `mem_pte_set` puts a different valid descriptor, not only other permissions, over a valid one -/
def Replaces (s : Hv) (dst val : Nat) : Prop :=
  isPteValid (s.mem dst) = true ∧ isPteValid val = true ∧ st2PermNot (s.mem dst) ≠ st2PermNot val

/-- the memory while the entry at `dst` is zero -/
def zeroed (mem : PhysMem) (dst : Nat) : PhysMem := fun a => if a = dst then 0 else mem a

/-- what the TLBs hold of the entry at `dst` is the page in bits `[35:0]` of the `ipa` given to the
invalidation, which is for the VMID of the VTTBR loaded -/
def FlushReaches (cfg : Config) (s : Hv) (vttbr dst ipa : Nat) : Prop :=
  ∀ k p, s.tlb (hwVmid cfg vttbr) k p → pageWalk cfg s.mem vttbr k = some p →
    pageWalk cfg (zeroed s.mem dst) vttbr k ≠ some p →
    hwVmid cfg vttbr = hwVmid cfg s.vttbrEl2 ∧ k = ipa % 2 ^ 36

omit [DecidableEq V] in
/-- what the TLBs hold after `mem_pte_set`: what the walkers find before or after the store of `val`, and
what the invalidation left -/
theorem memPteSet_holds {s : Hv} {mem : VmMem} {dst val ipa vmid k p : Nat}
    (h : (memPteSet cfg s mem dst val ipa).1.tlb vmid k p) :
    (memPteSet cfg s mem dst val ipa).1.Walkable cfg vmid k p ∨
      Hv.Walkable cfg { s with mem := zeroed s.mem dst } vmid k p ∨
      s.tlb vmid k p ∧
        (Replaces s dst val → ¬ (vmid = hwVmid cfg s.vttbrEl2 ∧ k = ipa % 2 ^ 36)) := by
  rw [memPteSet] at h ⊢
  split at h
  · rename_i hi
    rw [if_pos hi]
    rcases h with h | h
    · exact .inr (.inr ⟨h, fun hr => absurd hr.1 hi⟩)
    · exact .inl h
  rename_i hi
  rw [if_neg hi]
  simp only at h ⊢
  split at h
  · rename_i hn
    rw [if_pos hn]
    rcases h with h | h
    · exact .inr (.inr ⟨h, fun hr => absurd hr.2.1 hn⟩)
    · exact .inr (.inl h)
  rename_i hn
  rw [if_neg hn]
  split at h
  · rename_i hp
    rw [if_pos hp]
    rcases h with (⟨h | h, hk⟩ | h) | h
    · exact .inr (.inr ⟨h, fun _ => hk⟩)
    · exact .inr (.inl h)
    · exact .inr (.inl h)
    · exact .inl h
  · rename_i hp
    rw [if_neg hp]
    rcases h with (h | h) | h
    · exact .inr (.inr ⟨h, fun hr => absurd hr.2.2 hp⟩)
    · exact .inr (.inl h)
    · exact .inl h

omit [DecidableEq V] in
/-- a valid entry that is not replaced leaves a flush pending -/
theorem memPteSet_pending {s : Hv} {dst val : Nat} (mem : VmMem) (ipa : Nat)
    (hi : isPteValid (s.mem dst) = true) (hr : ¬ Replaces s dst val) :
    (memPteSet cfg s mem dst val ipa).2.needFlush = true := by
  rw [memPteSet, if_neg (by simpa using hi)]
  simp only
  split
  · rfl
  · rename_i hn
    rw [if_neg fun hp => hr ⟨hi, by simpa using hn, hp⟩]

omit [DecidableEq V] in
/-- the break-before-make rule is kept when nothing of the old entry is left by the invalidation -/
theorem memPteSet_bbm {s : Hv} {mem : VmMem} {dst val ipa : Nat} (hb : s.bbm)
    (hg : Replaces s dst val → ∀ k p, pageWalk cfg s.mem mem.archMem.vttbr k = some p →
      pageWalk cfg (zeroed s.mem dst) mem.archMem.vttbr k ≠ some p →
      (s.tlb (hwVmid cfg mem.archMem.vttbr) k p →
        hwVmid cfg mem.archMem.vttbr = hwVmid cfg s.vttbrEl2 ∧ k = ipa % 2 ^ 36) ∧
      ¬ Hv.Walkable cfg { s with mem := zeroed s.mem dst } (hwVmid cfg mem.archMem.vttbr) k p) :
    (memPteSet cfg s mem dst val ipa).1.bbm := by
  rw [memPteSet]
  split
  · exact hb
  rename_i hi
  simp only
  split
  · exact hb
  rename_i hn
  split
  · rename_i hp
    refine ⟨hb, fun k p h1 h2 h3 => ?_⟩
    obtain ⟨h4, h5⟩ := hg ⟨by simpa using hi, by simpa using hn, hp⟩ k p h1 h2
    rcases h3 with ⟨h3 | h3, hk⟩ | h3
    · exact hk (h4 h3)
    · exact h5 h3
    · exact h5 h3
  · exact hb

/-- where an entry of level `d` is and whose it is -/
structure EntryAt (cfg : Config) (s : Hv) (am : V → ArchVmMem) (lab : Nat → Option (Label V)) (v : V)
    (d root g k : Nat) : Prop where
  tables : Tables cfg s am lab
  rooted : Rooted cfg lab v (am v) root
  lab : lab g = some ⟨v, d, k / 512 ^ (d + 1)⟩
  slot : slot 512 (store s.mem) d cfg.top (root + k / 512 ^ (cfg.top + 1)) k = some g

section
variable {s : Hv} {am : V → ArchVmMem} {lab : Nat → Option (Label V)} {v : V} {d root g k : Nat}

/-- the translations while the entry is zero -/
theorem EntryAt.cleared (h : EntryAt cfg s am lab v d root g k) (hd : d ≤ 1) (w : V) {x : Nat}
    (hx : x < cfg.span) :
    pageWalk cfg (zeroed s.mem (pteAddr g (digit 512 d k))) (am w).vttbr x
      = if w = v ∧ x / 512 ^ d = k / 512 ^ d then none else pageWalk cfg s.mem (am w).vttbr x := by
  have htop := cfg.top_eq
  have hw := memPteSet_walks h.tables (by omega) h.rooted h.lab h.slot (entryVal_zero d) VmMem.boot 0 w hx
  have hm : (memPteSet cfg s VmMem.boot (pteAddr g (digit 512 d k)) 0 0).1.mem
      = zeroed s.mem (pteAddr g (digit 512 d k)) := by
    funext a
    rw [memPteSet_mem, zeroed]
    split
    · split <;> rfl
    · rfl
  rw [hm] at hw
  rw [pageWalk, pageWalk, hw]
  split
  · rw [entryView_zero]
    rfl
  · rfl

/-- an invalid entry translates nothing -/
theorem EntryAt.invalid (h : EntryAt cfg s am lab v d root g k) (hd : d ≤ 1)
    (hi : isPteValid (s.mem (pteAddr g (digit 512 d k))) = false) {x : Nat} (hx : x < cfg.span)
    (e : x / 512 ^ d = k / 512 ^ d) : pageWalk cfg s.mem (am v).vttbr x = none := by
  have htop := cfg.top_eq
  have hv := entryView_of_invalid (l := d) hi
  have hval : EntryVal d (s.mem (pteAddr g (digit 512 d k))) := fun g' => by rw [hv]; simp
  have hw := memPteSet_walks h.tables (by lia) h.rooted h.lab h.slot hval VmMem.boot 0 v hx
  have hm : (memPteSet cfg s VmMem.boot (pteAddr g (digit 512 d k))
      (s.mem (pteAddr g (digit 512 d k))) 0).1.mem = s.mem := by
    funext a
    rw [memPteSet_mem]
    split
    · rename_i ea
      rw [if_neg (by simp [hi]), ea]
    · rfl
  rw [hm, if_pos ⟨rfl, e⟩, hv] at hw
  rw [pageWalk, hw]
  rfl

/-- a translation that does not go through the entry stays -/
theorem EntryAt.outside (h : EntryAt cfg s am lab v d root g k) (hd : d ≤ 1) {val : Nat}
    (hv : EntryVal d val) (mem : VmMem) (ipa : Nat) {w : V} {x : Nat} (hx : x < cfg.span)
    (hn : ¬ (w = v ∧ x / 512 ^ d = k / 512 ^ d)) :
    pageWalk cfg (memPteSet cfg s mem (pteAddr g (digit 512 d k)) val ipa).1.mem (am w).vttbr x
      = pageWalk cfg s.mem (am w).vttbr x := by
  have htop := cfg.top_eq
  rw [pageWalk, memPteSet_walks h.tables (by omega) h.rooted h.lab h.slot hv mem ipa w hx, if_neg hn,
    pageWalk]

end

/-- **`mem_pte_set`** keeps the TLBs right when its invalidation reaches what went through the entry. -/
theorem memPteSet_tlb {s : Hv} {am : V → ArchVmMem} {lab : Nat → Option (Label V)} {v : V}
    {d root g k val : Nat} {flush : V → Bool} (h : EntryAt cfg s am lab v d root g k) (hd : d ≤ 1)
    (hv : EntryVal d val) (mem : VmMem) (hm : mem.archMem = am v) (hfl : mem.needFlush = flush v)
    (ipa : Nat) (ht : TlbOk cfg s am flush)
    (hr : Replaces s (pteAddr g (digit 512 d k)) val →
      FlushReaches cfg s (am v).vttbr (pteAddr g (digit 512 d k)) ipa) :
    TlbOk cfg (memPteSet cfg s mem (pteAddr g (digit 512 d k)) val ipa).1 am
      (Function.update flush v
        (memPteSet cfg s mem (pteAddr g (digit 512 d k)) val ipa).2.needFlush) := by
  -- what went through the entry is gone while it is zero
  have hgone : ∀ {w x}, x < cfg.span → w = v ∧ x / 512 ^ d = k / 512 ^ d →
      pageWalk cfg (zeroed s.mem (pteAddr g (digit 512 d k))) (am w).vttbr x = none := by
    intro w x hx hin
    rw [h.cleared hd w hx, if_pos hin]
  have hpend : ∀ w, flush w = true → Function.update flush v
      (memPteSet cfg s mem (pteAddr g (digit 512 d k)) val ipa).2.needFlush w = true := by
    intro w hw
    by_cases ew : w = v
    · rw [ew, Function.update_self]
      rcases memPteSet_vm cfg s mem (pteAddr g (digit 512 d k)) val ipa with e | e <;> rw [e]
      rw [hfl, ← ew, hw]
    · rw [Function.update_of_ne ew, hw]
  have hwalk0 : ∀ {vmid x p}, Hv.Walkable cfg { s with mem := zeroed s.mem (pteAddr g (digit 512 d k)) }
      vmid x p → ∃ w, (am w).st2Table ≠ 0 ∧ hwVmid cfg (am w).vttbr = vmid ∧
        PAGE_SIZE * x < cfg.ipaLimit ∧ ¬ (w = v ∧ x / 512 ^ d = k / 512 ^ d) ∧
        pageWalk cfg s.mem (am w).vttbr x = some p := by
    intro vmid x p hw
    obtain ⟨w, hw, hvm, hx, hp⟩ := walkable_held
      (s := { s with mem := zeroed s.mem (pteAddr g (digit 512 d k)) }) (fun _ => false)
      h.tables.loaded hw
    have hp : pageWalk cfg (zeroed s.mem (pteAddr g (digit 512 d k))) (am w).vttbr x = some p :=
      hp.resolve_left (by simp)
    rw [h.cleared hd w (span_of_limit hx)] at hp
    split at hp
    · cases hp
    · rename_i hn
      exact ⟨w, hw, hvm, hx, hn, hp⟩
  refine ⟨ht.distinct, fun vmid x p hp => ?_, memPteSet_bbm ht.bbm fun hrep x p h1 h2 => ⟨?_, ?_⟩⟩
  · rcases memPteSet_holds hp with hp | hp | ⟨hp, hleft⟩
    · refine walkable_held _ ?_ hp
      rw [(memPteSet_regs _ _ _ _ _ _).1, (memPteSet_regs _ _ _ _ _ _).2]
      exact h.tables.loaded
    · obtain ⟨w, hw, hvm, hx, hn, hp⟩ := hwalk0 hp
      exact ⟨w, hw, hvm, hx, .inr (by rw [h.outside hd hv mem ipa (span_of_limit hx) hn, hp])⟩
    · obtain ⟨w, hw, hvm, hx, hold⟩ := ht.held vmid x p hp
      refine ⟨w, hw, hvm, hx, ?_⟩
      rcases hold with hold | hold
      · exact .inl (hpend w hold)
      by_cases hin : w = v ∧ x / 512 ^ d = k / 512 ^ d
      · -- the old entry was valid: either it is flushed at once or a flush is pending
        left
        have hval : isPteValid (s.mem (pteAddr g (digit 512 d k))) = true := by
          by_contra hi
          rw [hin.1, h.invalid hd (by simpa using hi) (span_of_limit hx) hin.2] at hold
          cases hold
        rw [hin.1, Function.update_self]
        refine memPteSet_pending mem ipa hval fun hrep => hleft hrep ?_
        rw [← hvm, hin.1]
        rw [← hvm, hin.1] at hp
        rw [hin.1] at hold
        refine hr hrep x p hp hold ?_
        have := hgone (span_of_limit hx) hin
        rw [hin.1] at this
        rw [this]
        simp
      · exact .inr (by rw [h.outside hd hv mem ipa (span_of_limit hx) hin, hold])
  · rw [hm] at h1 h2 ⊢
    exact fun hp => hr hrep x p hp h1 h2
  · rw [hm] at h2 ⊢
    intro hw
    obtain ⟨w, hw, hvm, hx, hn, hp⟩ := hwalk0 hw
    have e := ht.distinct w v hw (h.tables.st2Table_ne h.rooted) hvm
    rw [h.cleared hd v (span_of_limit hx), if_neg (by rwa [e] at hn)] at h2
    rw [e] at hp
    exact h2 hp

/-! ## a round -/

/-- the guard of a round: the entry is not replaced, or the invalidation reaches what went through it -/
def RoundMeets (cfg : Config) (s : Hv) (vm : VmMem) (ipa level val : Nat) : Prop :=
  ∀ dst, (pteGet cfg s vm.archMem ipa level).2.2 = some dst →
    Replaces (pteGet cfg s vm.archMem ipa level).1 dst val →
    FlushReaches cfg (pteGet cfg s vm.archMem ipa level).1
      (pteGet cfg s vm.archMem ipa level).2.1.vttbr dst ipa

theorem setEntry_tlb {s : Hv} {am : V → ArchVmMem} {lab : Nat → Option (Label V)} {v : V}
    (flush : V → Bool) {vm : VmMem} (h : Tables cfg s am lab) (ha : vm.archMem = am v)
    (hfl : vm.needFlush = flush v) (hc : (am v).st2Table = 0 → RootClean cfg s)
    (hf : (am v).st2Table = 0 → VmidFresh cfg s am) (ht : TlbOk cfg s am flush) {ipa d val : Nat}
    (hd : d ≤ 1) (hv : EntryVal d val) (hr : RoundMeets cfg s vm ipa (3 - d) val) :
    TlbOk cfg (setEntry cfg s vm ipa (3 - d) val).1
      (setAm am v (setEntry cfg s vm ipa (3 - d) val).2.1)
      (Function.update flush v (setEntry cfg s vm ipa (3 - d) val).2.1.needFlush) := by
  obtain ⟨lab', h1, -, -, -, -, hG⟩ := pteGet_spec (v := v) h hc ipa hd
  have ht1 := pteGet_tlb (v := v) h hc hf ht ipa hd
  rw [RoundMeets, ha] at hr
  rw [setEntry, ha]
  rcases hG with ⟨g, root, e, hg, hroot, hslot, -⟩ | ⟨e, -⟩
  · simp only [e]
    have hat : EntryAt cfg (pteGet cfg s (am v) ipa (3 - d)).1
        (Function.update am v (pteGet cfg s (am v) ipa (3 - d)).2.1) lab' v d root g (cfg.key ipa) :=
      ⟨h1, by rwa [Function.update_self], hg, hslot⟩
    have hm := memPteSet_tlb hat hd hv
      { vm with archMem := (pteGet cfg s (am v) ipa (3 - d)).2.1 } (by rw [Function.update_self])
      hfl ipa ht1 (by rw [Function.update_self]; exact hr _ e)
    rw [setAm]
    rcases memPteSet_vm cfg (pteGet cfg s (am v) ipa (3 - d)).1
      { vm with archMem := (pteGet cfg s (am v) ipa (3 - d)).2.1 }
      (pteAddr g (digit 512 d (cfg.key ipa))) val ipa with e2 | e2 <;> rw [e2] at hm ⊢ <;> exact hm
  · simp only [e]
    rw [hfl, Function.update_eq_self]
    exact ht1

end

/-! ## the machine -/

/-- a call of `arch_mem_map`, or of `arch_mem_unmap` if there is no `pa`, with `off` bytes done -/
structure EditCall where
  pa : Option Nat
  ipa : Nat
  len : Nat
  off : Nat

def EditCall.block (c : EditCall) (off : Nat) : Bool :=
  match c.pa with
  | some pa => blockStep (pa + off) (c.ipa + off) (c.len - off)
  | none => blockStep (c.ipa + off) (c.ipa + off) (c.len - off)

def EditCall.blockVal (c : EditCall) (off : Nat) : Nat :=
  match c.pa with
  | some pa => MMU_PTE_BLOCK ||| (pa + off)
  | none => 0

def EditCall.pageVal (c : EditCall) (off : Nat) : Nat :=
  match c.pa with
  | some pa => MMU_PTE_TABLE ||| (pa + off)
  | none => 0

/-- the level and the descriptor of the next round -/
def EditCall.level (c : EditCall) : Nat := if c.block c.off then 2 else 3

def EditCall.val (c : EditCall) : Nat := if c.block c.off then c.blockVal c.off else c.pageVal c.off

def EditCall.next (c : EditCall) : EditCall :=
  { c with off := c.off + if c.block c.off then VM_MEM_BLOCK_2M else PAGE_SIZE }

/-- the checks before the loops -/
def argsOk (pa ipa : Nat) (len : Int) : Bool :=
  oaOut pa = 0 ∧ oaOut ipa = 0 ∧ isPageAlign len.toNat ∧ PAGE_SIZE ≤ len ∧ isPageAlign pa ∧ isPageAlign ipa

structure EditSys where
  sys : TableSys
  /-- the calls under way -/
  call : Nat → Option EditCall

inductive EditOp where
  | call (v : Nat) (pa : Option Nat) (ipa : Nat) (len : Int)
  | round (v : Nat)
  | sys (op : TableOp)

/-- calls are made with `mem_lock` held, which is released after them -/
def editStep (cfg : Config) (s : EditSys) : EditOp → Option EditSys
  | .call v pa ipa len =>
    if s.sys.locked v ∧ s.call v = none then
      if argsOk (pa.getD 0) ipa len then
        some { s with call := Function.update s.call v (some ⟨pa, ipa, len.toNat, 0⟩) }
      else some s
    else none
  | .round v =>
    match s.call v with
    | none => none
    | some c =>
      if c.len ≤ c.off then some { s with call := Function.update s.call v none }
      else
        let r := setEntry cfg s.sys.hv (s.sys.vm v) (c.ipa + c.off) c.level c.val
        some { sys := { s.sys with hv := r.1, vm := Function.update s.sys.vm v r.2.1 }
               call := Function.update s.call v (if r.2.2 then some c.next else none) }
  | .sys (.map _ _ _ _) => none
  | .sys (.unmap _ _ _) => none
  | .sys (.unlock v) =>
    if s.call v = none then (tableStep cfg s.sys (.unlock v)).map fun t => { s with sys := t } else none
  | .sys op => (tableStep cfg s.sys op).map fun t => { s with sys := t }

structure EditSys.Boot (cfg : Config) (s : EditSys) : Prop where
  sys : s.sys.Boot cfg
  call : ∀ v, s.call v = none

/-- the guard, on the state before a round -/
def EditGuard (cfg : Config) (s : EditSys) : EditOp → Prop
  | .round v => ∀ c, s.call v = some c → c.off < c.len →
    ((s.sys.am v).st2Table = 0 → RootClean cfg s.sys.hv ∧ VmidFresh cfg s.sys.hv s.sys.am) ∧
      RoundMeets cfg s.sys.hv (s.sys.vm v) (c.ipa + c.off) c.level c.val
  | _ => True

/-! ## the machine runs the functions -/

theorem EditCall.round (c : EditCall) :
    ∃ d ≤ 1, c.level = 3 - d ∧ Round c.block c.blockVal c.pageVal c.off d c.val := by
  rw [level, val]
  cases h : c.block c.off with
  | true => exact ⟨1, le_rfl, rfl, by rw [Round, if_pos h]; exact ⟨rfl, rfl⟩⟩
  | false => exact ⟨0, by decide, rfl, by rw [Round, if_neg (by simp [h])]; exact ⟨rfl, rfl⟩⟩

theorem EditCall.entryVal {c : EditCall} {off d val : Nat}
    (h : Round c.block c.blockVal c.pageVal off d val) : EntryVal d val := by
  obtain ⟨pa, ipa, len, off⟩ := c
  cases pa with
  | some pa => exact mapRound_entryVal h
  | none => exact unmapRound_entryVal h

section
variable {cfg : Config}

/-- the rounds of a call are the loop of its function -/
theorem exec_rounds (err : Int) (v : Nat) : ∀ (n : Nat) {s : EditSys} {c : EditCall},
    s.call v = some c → c.len ≤ c.off + PAGE_SIZE * n →
    ∃ m, Machine.exec (editStep cfg) s (List.replicate m (.round v)) = some
      { sys := { s.sys with
          hv := (editLoop cfg err c.block c.blockVal c.pageVal c.ipa c.len n s.sys.hv (s.sys.vm v) c.off).1
          vm := Function.update s.sys.vm v
            (editLoop cfg err c.block c.blockVal c.pageVal c.ipa c.len n s.sys.hv (s.sys.vm v) c.off).2.1 }
        call := Function.update s.call v none } := by
  intro n
  induction n with
  | zero =>
    intro s c hc hl
    refine ⟨1, ?_⟩
    rw [List.replicate_one, Machine.exec, editStep]
    simp only [hc, editLoop, Function.update_eq_self]
    rw [if_pos (by omega)]
    rfl
  | succ n ih =>
    intro s c hc hl
    by_cases hle : c.len ≤ c.off
    · refine ⟨1, ?_⟩
      rw [List.replicate_one, Machine.exec, editStep]
      simp only [hc, editLoop, if_pos hle, Function.update_eq_self]
      rfl
    · -- one round, and then the rest of the loop or the end
      have hstep : editStep cfg s (.round v) = some
          { sys := { s.sys with
              hv := (setEntry cfg s.sys.hv (s.sys.vm v) (c.ipa + c.off) c.level c.val).1
              vm := Function.update s.sys.vm v
                (setEntry cfg s.sys.hv (s.sys.vm v) (c.ipa + c.off) c.level c.val).2.1 }
            call := Function.update s.call v
              (if (setEntry cfg s.sys.hv (s.sys.vm v) (c.ipa + c.off) c.level c.val).2.2 then
                some c.next else none) } := by
        rw [editStep]
        simp only [hc, if_neg hle]
      have hloop : editLoop cfg err c.block c.blockVal c.pageVal c.ipa c.len (n + 1) s.sys.hv (s.sys.vm v)
          c.off = if (setEntry cfg s.sys.hv (s.sys.vm v) (c.ipa + c.off) c.level c.val).2.2 then
            editLoop cfg err c.block c.blockVal c.pageVal c.ipa c.len n
              (setEntry cfg s.sys.hv (s.sys.vm v) (c.ipa + c.off) c.level c.val).1
              (setEntry cfg s.sys.hv (s.sys.vm v) (c.ipa + c.off) c.level c.val).2.1 c.next.off
          else ((setEntry cfg s.sys.hv (s.sys.vm v) (c.ipa + c.off) c.level c.val).1,
            (setEntry cfg s.sys.hv (s.sys.vm v) (c.ipa + c.off) c.level c.val).2.1, err) := by
        rw [editLoop, if_neg hle, EditCall.level, EditCall.val, EditCall.next]
        split <;> rfl
      cases hr : (setEntry cfg s.sys.hv (s.sys.vm v) (c.ipa + c.off) c.level c.val).2.2 with
      | false =>
        refine ⟨1, ?_⟩
        rw [List.replicate_one, Machine.exec, hstep, hloop, hr]
        rfl
      | true =>
        rw [hr, if_pos rfl] at hstep hloop
        obtain ⟨m, hm⟩ := @ih
          { sys := { s.sys with
              hv := (setEntry cfg s.sys.hv (s.sys.vm v) (c.ipa + c.off) c.level c.val).1
              vm := Function.update s.sys.vm v
                (setEntry cfg s.sys.hv (s.sys.vm v) (c.ipa + c.off) c.level c.val).2.1 }
            call := Function.update s.call v (some c.next) } c.next
          (Function.update_self _ _ _) (by
            show c.len ≤ c.off + (if c.block c.off then VM_MEM_BLOCK_2M else PAGE_SIZE) + PAGE_SIZE * n
            simp only [PAGE_SIZE, VM_MEM_BLOCK_2M] at hl ⊢
            split <;> omega)
        refine ⟨m + 1, ?_⟩
        rw [List.replicate_succ, Machine.exec, hstep, hloop, Option.bind_some, hm]
        simp only [Function.update_self, Function.update_idem]
        rfl

theorem argsOk_iff (pa ipa : Nat) (len : Int) : argsOk pa ipa len = true ↔
    oaOut pa = 0 ∧ oaOut ipa = 0 ∧ isPageAlign len.toNat = true ∧ PAGE_SIZE ≤ len ∧
      isPageAlign pa = true ∧ isPageAlign ipa = true := by
  rw [argsOk, decide_eq_true_eq]

theorem archMemMap_args (s : Hv) (vm : VmMem) (pa ipa : Nat) (len : Int) :
    archMemMap cfg s vm pa ipa len = if argsOk pa ipa len then archMemMapLoop cfg s vm pa ipa len.toNat
      else (s, vm, ERR_INVALID_ARGS) := by
  have h := argsOk_iff pa ipa len
  rw [archMemMap]
  split
  · rw [if_neg (by rw [h]; lia)]
  split
  · rw [if_neg]
    rw [h]
    rintro ⟨-, -, h1, h2, h3, h4⟩
    simp_all
    lia
  · rw [if_pos]
    rw [h]
    simp_all

theorem archMemUnmap_args (s : Hv) (vm : VmMem) (ipa : Nat) (len : Int) :
    archMemUnmap cfg s vm ipa len = if argsOk 0 ipa len then archMemUnmapLoop cfg s vm ipa len.toNat
      else (s, vm, ERR_INVALID_ARGS) := by
  have h := argsOk_iff 0 ipa len
  have h0 : isPageAlign 0 = true := by decide
  have h1 : oaOut 0 = 0 := rfl
  rw [archMemUnmap]
  split
  · rw [if_neg (by rw [h]; lia)]
  split
  · rw [if_neg]
    rw [h]
    rintro ⟨-, -, h1, h2, h3, h4⟩
    simp_all
    lia
  · rw [if_pos]
    rw [h]
    simp_all

/-- the call as one step -/
def editOp (v : Nat) (pa : Option Nat) (ipa : Nat) (len : Int) : TableOp :=
  match pa with
  | some pa => .map v pa ipa len
  | none => .unmap v ipa len

/-- **A call of `arch_mem_map` or `arch_mem_unmap` is a run of rounds.** -/
theorem exec_call {s : EditSys} {v : Nat} (hl : s.sys.locked v = true) (hc : s.call v = none)
    (pa : Option Nat) (ipa : Nat) (len : Int) : ∃ m, Machine.exec (editStep cfg) s
      (.call v pa ipa len :: List.replicate m (.round v)) =
        (tableStep cfg s.sys (editOp v pa ipa len)).map fun t => { s with sys := t } := by
  by_cases ha : argsOk (pa.getD 0) ipa len = true
  · have hcall : editStep cfg s (.call v pa ipa len)
        = some { s with call := Function.update s.call v (some ⟨pa, ipa, len.toNat, 0⟩) } := by
      rw [editStep, if_pos ⟨hl, hc⟩, if_pos ha]
    have hnone : Function.update s.call v none = s.call := by rw [← hc, Function.update_eq_self]
    obtain ⟨m, hm⟩ := exec_rounds (if pa = none then ERR_NOT_FOUND else ERR_NO_MEMORY) v
      (len.toNat / PAGE_SIZE + 1)
      (s := { s with call := Function.update s.call v (some ⟨pa, ipa, len.toNat, 0⟩) })
      (c := ⟨pa, ipa, len.toNat, 0⟩) (Function.update_self _ _ _)
      (by simpa using len_le_rounds len.toNat)
    refine ⟨m, ?_⟩
    rw [Machine.exec, hcall, Option.bind_some, hm]
    simp only [Function.update_idem, hnone]
    cases pa with
    | some pa =>
      rw [Option.getD_some] at ha
      simp only [editOp, tableStep, archMemMap_args]
      rw [if_pos ha]
      rfl
    | none =>
      rw [Option.getD_none] at ha
      simp only [editOp, tableStep, archMemUnmap_args]
      rw [if_pos ha]
      rfl
  · refine ⟨0, ?_⟩
    rw [List.replicate_zero, Machine.exec, editStep, if_pos ⟨hl, hc⟩, if_neg ha]
    cases pa with
    | some pa =>
      rw [Option.getD_some] at ha
      simp only [editOp, tableStep, archMemMap_args]
      rw [if_neg ha, Function.update_eq_self]
      rfl
    | none =>
      rw [Option.getD_none] at ha
      simp only [editOp, tableStep, archMemUnmap_args]
      rw [if_neg ha, Function.update_eq_self]
      rfl

/-! ## the invariant -/

theorem flush_update (vm : Nat → VmMem) (v : Nat) (x : VmMem) :
    (fun w => (Function.update vm v x w).needFlush)
      = Function.update (fun w => (vm w).needFlush) v x.needFlush := by
  funext w
  by_cases ew : w = v
  · rw [ew, Function.update_self, Function.update_self]
  · rw [Function.update_of_ne ew, Function.update_of_ne ew]

structure EditInv (cfg : Config) (s : EditSys) : Prop where
  table : ∃ lab, TableInv cfg s.sys lab
  tlb : TlbOk cfg s.sys.hv s.sys.am fun v => (s.sys.vm v).needFlush
  pending : ∀ v, (s.sys.vm v).needFlush = true → s.sys.locked v = true
  busy : ∀ v, s.call v ≠ none → s.sys.locked v = true

theorem EditInv.boot {s : EditSys} (h : s.Boot cfg) : EditInv cfg s := by
  refine ⟨⟨_, TableInv.boot h.sys⟩, ⟨fun v w hv _ _ => ?_, fun vmid k p hp => ?_, h.sys.hv.bbm⟩,
    fun v hv => ?_, fun v hv => absurd (h.call v) hv⟩
  · rw [TableSys.am, h.sys.vm v] at hv
    exact absurd rfl hv
  · exact absurd hp (h.sys.hv.tlb vmid k p)
  · rw [h.sys.vm v] at hv
    cases hv

/-- a round of a call -/
theorem EditInv.round {s : EditSys} (h : EditInv cfg s) {v : Nat} {c : EditCall}
    (hc : s.call v = some c)
    (hroot : (s.sys.am v).st2Table = 0 → RootClean cfg s.sys.hv ∧ VmidFresh cfg s.sys.hv s.sys.am)
    (hr : RoundMeets cfg s.sys.hv (s.sys.vm v) (c.ipa + c.off) c.level c.val) {c' : Option EditCall} :
    EditInv cfg
      { sys := { s.sys with
          hv := (setEntry cfg s.sys.hv (s.sys.vm v) (c.ipa + c.off) c.level c.val).1
          vm := Function.update s.sys.vm v
            (setEntry cfg s.sys.hv (s.sys.vm v) (c.ipa + c.off) c.level c.val).2.1 }
        call := Function.update s.call v c' } := by
  have hlock : s.sys.locked v = true := h.busy v (by rw [hc]; simp)
  obtain ⟨lab, ht⟩ := h.table
  obtain ⟨d, hd, hlev, hround⟩ := c.round
  have hv := EditCall.entryVal hround
  rw [hlev] at hr ⊢
  obtain ⟨lab', h1, h2, h3, -⟩ := setEntry_tables (v := v) (s.sys.vm v) ht.tables rfl
    (fun hz => (hroot hz).1) ht.small (c.ipa + c.off) hd hv
  refine ⟨⟨lab', ht.edit h1 h2 h3⟩, ?_, fun w hw => ?_, fun w hw => ?_⟩
  · have := setEntry_tlb (fun v => (s.sys.vm v).needFlush) (v := v) ht.tables rfl rfl
      (fun hz => (hroot hz).1) (fun hz => (hroot hz).2) h.tlb hd hv hr
    rw [← am_update, ← flush_update] at this
    exact this
  · by_cases ew : w = v
    · rw [ew]
      exact hlock
    · simp only [Function.update_of_ne ew] at hw
      exact h.pending w hw
  · by_cases ew : w = v
    · rw [ew]
      exact hlock
    · simp only [Function.update_of_ne ew] at hw
      exact h.busy w hw

/-- what the TLBs hold after `arch_tlb_flush` -/
theorem archTlbFlush_holds {s : Hv} {mem : VmMem} {vmid k p : Nat}
    (h : (archTlbFlush cfg s mem).tlb vmid k p) :
    s.tlb vmid k p ∧ vmid ≠ hwVmid cfg mem.archMem.vttbr ∨
      Hv.Walkable cfg { s with vttbrEl2 := mem.archMem.vttbr } vmid k p ∨ s.Walkable cfg vmid k p := by
  simp only [archTlbFlush] at h
  split at h
  · rename_i hne
    rcases h with (⟨h | h, hvm⟩ | h) | h
    · exact .inl ⟨h, hvm⟩
    · exact .inr (.inl h)
    · exact .inr (.inl h)
    · exact .inr (.inr h)
  · rename_i heq
    have heq : s.vttbrEl2 = mem.archMem.vttbr := by simpa using heq
    rcases h with ⟨h, hvm⟩ | h
    · exact .inl ⟨h, by rwa [← heq]⟩
    · exact .inr (.inr h)

/-- **`mem_unlock`** leaves no pending flush and nothing stale. -/
theorem memUnlock_tlb {s : TableSys} {lab : Nat → Option (Label Nat)} (h : TableInv cfg s lab)
    (ht : TlbOk cfg s.hv s.am fun v => (s.vm v).needFlush) (v : Nat) :
    TlbOk cfg (memUnlock cfg s.hv (s.vm v)).1 s.am
        (fun w => (Function.update s.vm v (memUnlock cfg s.hv (s.vm v)).2 w).needFlush) ∧
      (memUnlock cfg s.hv (s.vm v)).2.needFlush = false := by
  rw [memUnlock]
  split
  · rename_i hf
    refine ⟨⟨ht.distinct, fun vmid k p hp => ?_, ?_⟩, rfl⟩
    · have hmem : (archTlbFlush cfg s.hv (s.vm v)).mem = s.hv.mem := by
        simp only [archTlbFlush]
        split <;> rfl
      rw [hmem]
      rcases archTlbFlush_holds hp with ⟨hp, hne⟩ | hp | hp
      · obtain ⟨w, hw, hvm, hk, hwalk⟩ := ht.held vmid k p hp
        have ew : w ≠ v := by
          rintro rfl
          exact hne hvm.symm
        refine ⟨w, hw, hvm, hk, hwalk.imp (fun hwf => ?_) id⟩
        simp only [Function.update_of_ne ew]
        exact hwf
      · refine walkable_held (s := { s.hv with vttbrEl2 := (s.vm v).archMem.vttbr }) _ ?_ hp
        intro w hw
        rcases List.mem_cons.mp hw with rfl | hw
        · exact (h.tables.root v).imp (fun hn => hn.vttbr)
            fun hr => ⟨v, h.tables.st2Table_ne hr.choose_spec, rfl⟩
        · exact h.tables.loaded w (List.mem_cons_of_mem _ hw)
      · exact walkable_held _ h.tables.loaded hp
    · simp only [archTlbFlush]
      split <;> exact ht.bbm
  · rename_i hf
    rw [Function.update_eq_self]
    exact ⟨ht, by simpa using hf⟩

/-- steps that change no translation and nothing of the VMs -/
theorem TlbOk.same {s s' : Hv} {am : Nat → ArchVmMem} {lab : Nat → Option (Label Nat)}
    {flush : Nat → Bool} (h : TlbOk cfg s am flush) (ht : Tables cfg s am lab)
    (hq : Quiet cfg lab s s') : TlbOk cfg s' am flush :=
  h.quiet ht hq (fun w _ hx => ht.leafWalk_congr hq.walk w hx) (fun _ _ => rfl) h.distinct

/-- the steps other than calls and their rounds -/
theorem EditInv.sys {s : EditSys} (h : EditInv cfg s) {op : TableOp} {s' : EditSys}
    (hst : editStep cfg s (.sys op) = some s') : EditInv cfg s' := by
  obtain ⟨lab, ht⟩ := h.table
  have htab : ∀ op {t}, RootsClean cfg s.sys op → tableStep cfg s.sys op = some t →
      ∃ lab, TableInv cfg t lab := fun _ _ hg hst => ht.step hg hst
  cases op with
  | map v pa ipa len => cases hst
  | unmap v ipa len => cases hst
  | lock v =>
    simp only [editStep, Option.map_eq_some_iff] at hst
    obtain ⟨t, hst, rfl⟩ := hst
    have htab := htab (.lock v) trivial hst
    simp only [tableStep] at hst
    split at hst
    · cases hst
    · cases hst
      have hl : ∀ w, s.sys.locked w = true → Function.update s.sys.locked v true w = true := by
        intro w hw
        by_cases ew : w = v
        · rw [ew, Function.update_self]
        · rw [Function.update_of_ne ew, hw]
      exact ⟨htab, h.tlb, fun w hw => hl w (h.pending w hw), fun w hw => hl w (h.busy w hw)⟩
  | unlock v =>
    simp only [editStep] at hst
    split at hst
    · rename_i hc
      rw [Option.map_eq_some_iff] at hst
      obtain ⟨t, hst, rfl⟩ := hst
      have htab := htab (.unlock v) trivial hst
      simp only [tableStep] at hst
      split at hst
      · cases hst
        obtain ⟨h1, h2⟩ := memUnlock_tlb ht h.tlb v
        have ham : (fun w => (Function.update s.sys.vm v (memUnlock cfg s.sys.hv (s.sys.vm v)).2 w).archMem)
            = s.sys.am := by
          rw [am_update, setAm, (memUnlock_hv cfg s.sys.hv (s.sys.vm v)).2.2.2.2.2.2, Function.update_eq_self]
        refine ⟨htab, ?_, fun w hw => ?_, fun w hw => ?_⟩
        · rw [← ham] at h1
          exact h1
        · by_cases ew : w = v
          · simp only [ew, Function.update_self, h2] at hw
            cases hw
          · simp only [Function.update_of_ne ew] at hw ⊢
            exact h.pending w hw
        · by_cases ew : w = v
          · rw [ew] at hw
            exact absurd hc hw
          · simp only [Function.update_of_ne ew]
            exact h.busy w hw
      · cases hst
    · cases hst
  | load v vs =>
    simp only [editStep, Option.map_eq_some_iff] at hst
    obtain ⟨t, hst, rfl⟩ := hst
    obtain ⟨lab', ht'⟩ := htab (.load v vs) trivial hst
    cases hst
    refine ⟨⟨lab', ht'⟩, ⟨h.tlb.distinct, fun vmid k p hp => ?_, h.tlb.bbm⟩, h.pending, h.busy⟩
    rcases hp with hp | hp
    · exact h.tlb.held vmid k p hp
    · exact walkable_held _ ht'.tables.loaded hp
  | hostAlloc count =>
    simp only [editStep, Option.map_eq_some_iff] at hst
    obtain ⟨t, hst, rfl⟩ := hst
    have htab := htab (.hostAlloc count) trivial hst
    cases hst
    exact ⟨htab, h.tlb.same ht.tables (Quiet.withPmm lab _ _), h.pending, h.busy⟩
  | hostFree pgs =>
    simp only [editStep, Option.map_eq_some_iff] at hst
    obtain ⟨t, hst, rfl⟩ := hst
    have htab := htab (.hostFree pgs) trivial hst
    simp only [tableStep] at hst
    split at hst
    · cases hst
      exact ⟨htab, h.tlb.same ht.tables (Quiet.withPmm lab _ _), h.pending, h.busy⟩
    · cases hst
  | hostWrite addr val =>
    simp only [editStep, Option.map_eq_some_iff] at hst
    obtain ⟨t, hst, rfl⟩ := hst
    have htab := htab (.hostWrite addr val) trivial hst
    simp only [tableStep] at hst
    split at hst
    · rename_i hp
      cases hst
      exact ⟨htab, h.tlb.same ht.tables (ht.tables.quiet_write val (ht.host _ hp).1), h.pending, h.busy⟩
    · cases hst

theorem EditInv.step {s s' : EditSys} {op : EditOp} (h : EditInv cfg s) (hg : EditGuard cfg s op)
    (hst : editStep cfg s op = some s') : EditInv cfg s' := by
  cases op with
  | call v pa ipa len =>
    simp only [editStep] at hst
    split at hst
    · rename_i hl
      split at hst
      · cases hst
        refine ⟨h.table, h.tlb, h.pending, fun w hw => ?_⟩
        by_cases ew : w = v
        · rw [ew]
          exact hl.1
        · simp only [Function.update_of_ne ew] at hw
          exact h.busy w hw
      · cases hst
        exact h
    · cases hst
  | round v =>
    simp only [editStep] at hst
    split at hst
    · cases hst
    · rename_i c hc
      split at hst
      · cases hst
        refine ⟨h.table, h.tlb, h.pending, fun w hw => ?_⟩
        by_cases ew : w = v
        · simp [ew] at hw
        · simp only [Function.update_of_ne ew] at hw
          exact h.busy w hw
      · rename_i hlt
        cases hst
        obtain ⟨h1, h2⟩ := hg c hc (by omega)
        exact h.round hc h1 h2
  | sys op => exact h.sys hst

end

/-! ## runs on a small board -/

def smallEdit : EditSys where
  sys := smallSys fun _ => 0
  call _ := none

section
variable {cfg : Config} {vmid k p : Nat}

end

theorem exec_call_first : ∃ m t, Machine.exec (editStep (smallConfig ⟨20, 2, 0, 0⟩ (by decide)))
    { smallEdit with sys := { smallEdit.sys with locked := fun _ => true } }
    (.call 0 (some 0x50000000) 0x1000 0x3000 :: List.replicate m (.round 0)) = some t :=
  (exec_call rfl rfl _ _ _).imp fun _ h => ⟨_, h⟩

end LkHv
