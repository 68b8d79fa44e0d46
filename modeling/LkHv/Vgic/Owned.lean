import LkHv.Vgic.Pending
import LkHv.Vgic.Regs

/-!
# Who owns a list register

A vCPU's list `lr_head` names the interrupts that are in its list registers, `lr` of an interrupt the register.

* `Belongs`            the interrupts of a vCPU: its private ones, and the mapped SPIs of its VM;
* `FlushOk`            an interrupt that may be flushed: it is in no list register, or, without a physical interrupt,
                       its index does not lead to a register of another one;
* `LrGuard`            the steps that leave each register to its owner;
* `LrCore`, `LrInv`    a valid register has one owner; the owners of a vCPU outside its guest are valid;
* `take`               a free register is written for an interrupt that has none;
* `lr_owned`           in runs under the guard the registers are owned, and a power-off keeps to its vCPU's;
* `lr_owned_fails`     an interrupt injected while it is in a list register gets a second one.
-/

namespace LkHv
namespace Vgic

/-! ## statements -/

/-- the interrupts of a vCPU: its private ones, and the SPIs of its VM that are mapped -/
def Belongs (cfg : VgicConfig) (v : VcpuId) : VirqId → Prop
  | .priv w i => w = v ∧ i < GIC_BASE_SPI
  | .spi vm i => vm = v.vm ∧ (cfg.spiMap vm i).isSome

/-- an interrupt that may be flushed to the registers of the CPU `c` -/
structure FlushOk (cfg : VgicConfig) (s : Vgic) (c : Nat) (x : VirqId) : Prop where
  hw : cfg.hwintid x ≠ 0 → (s.irqs x).lrNode = false
  free : cfg.hwintid x = 0 → (s.irqs x).lr ≠ LR_INDEX_INVALID →
    (s.lrRead c (s.irqs x).lr).state = .invalid → (s.irqs x).lrNode = false
  active : cfg.hwintid x = 0 → (s.irqs x).lr ≠ LR_INDEX_INVALID →
    (s.lrRead c (s.irqs x).lr).state = .active → (s.lrRead c (s.irqs x).lr).virq = cfg.intid x

/-- **The steps that leave each register to its owner.** -/
def LrGuard (cfg : VgicConfig) (s : Vgic) : VgicOp → Prop
  | .inject _ vm vcpu virq => ∀ x v, getVirq cfg vm vcpu virq = some x → s.injectTarget vcpu x = some v →
      (s.irqs x).enable = true → Belongs cfg v x
  | .flush c => ∀ v, s.vcpu c = some v → ∀ x ∈ s.pdHead v, FlushOk cfg s c x
  | .switchTo c v => ∀ d, s.vcpu d = some v → d = c
  | .poweroff c v => s.status v ≠ .shutdown → s.status v ≠ .created →
      s.vcpu c = some v ∨ s.lrHead v = [] ∧ ∀ w, s.vcpu c = some w → ∀ k < cfg.lrNr, s.ichLr c k = GicLr.zero
  | .irqInit v => s.lrHead v = [] ∨ (∀ d, s.vcpu d ≠ some v) ∧ ∀ x ∈ s.lrHead v, ∃ i, x = .priv v i
  | _ => True

/-! ## the invariant -/

/-- a valid register has one owner -/
structure LrCore (cfg : VgicConfig) (s : Vgic) : Prop where
  loaded : Loaded cfg s
  node : ∀ v, ∀ x ∈ s.lrHead v, (s.irqs x).lrNode = true
  onList : ∀ x, (s.irqs x).lrNode = true → ∃ v, x ∈ s.lrHead v
  apart : Links.Apart s.lrHead
  belongs : ∀ v, ∀ x ∈ s.lrHead v, Belongs cfg v x
  index : IndexOk cfg s
  resident : ∀ v, ∀ x ∈ s.lrHead v, (s.irqs x).lr < cfg.lrNr ∧ (s.regs cfg v (s.irqs x).lr).virq = cfg.intid x
  owned : ∀ v, ∀ k < cfg.lrNr, (s.regs cfg v k).state ≠ .invalid → ∃ x ∈ s.lrHead v, (s.irqs x).lr = k
  clash : s.clash = false

/-- the guest of `v` does not run -/
def Outside (s : Vgic) (v : VcpuId) : Prop := ∀ c, s.vcpu c = some v → s.guest c = false

structure LrInv (cfg : VgicConfig) (s : Vgic) : Prop extends LrCore cfg s where
  queued : ∀ v, ∀ x ∈ s.pdHead v, Belongs cfg v x
  valid : ∀ v, ∀ x ∈ s.lrHead v, s.Outside v → (s.regs cfg v (s.irqs x).lr).state ≠ .invalid

section
variable {cfg : VgicConfig} {s s' s'' : Vgic} {c k : Nat} {v w : VcpuId} {x y : VirqId} {l : List VirqId}

/-- the interrupts of a vCPU differ in their INTIDs -/
theorem Belongs.inj (hx : Belongs cfg v x) (hy : Belongs cfg v y) (h : cfg.intid x = cfg.intid y) : x = y := by
  cases x with
  | priv u i =>
    obtain ⟨rfl, hi⟩ := hx
    cases y with
    | priv u' j =>
      obtain ⟨rfl, -⟩ := hy
      rw [show i = j from h]
    | spi vm j =>
      obtain ⟨-, hj⟩ := hy
      have h : i = GIC_BASE_SPI + j := h.trans (if_pos hj)
      lia
  | spi vm i =>
    obtain ⟨rfl, hi⟩ := hx
    have hxi : cfg.intid (.spi v.vm i) = GIC_BASE_SPI + i := if_pos hi
    cases y with
    | priv u' j =>
      obtain ⟨rfl, hj⟩ := hy
      have h : GIC_BASE_SPI + i = j := hxi.symm.trans h
      lia
    | spi vm' j =>
      obtain ⟨rfl, hj⟩ := hy
      have hyj : cfg.intid (.spi v.vm j) = GIC_BASE_SPI + j := if_pos hj
      rw [show i = j by lia]

theorem LrCore.not_on (h : LrCore cfg s) (hx : (s.irqs x).lrNode = false) (v : VcpuId) : x ∉ s.lrHead v := by
  intro hm
  rw [h.node v x hm] at hx
  cases hx

/-! ## steps that leave the registers alone -/

/-- list registers, their lists and indices are as before -/
structure NodeSame (s s' : Vgic) : Prop extends LrSame s s' where
  node : ∀ x, (s'.irqs x).lrNode = (s.irqs x).lrNode

theorem NodeSame.refl (s : Vgic) : NodeSame s s := ⟨.refl s, fun _ => rfl⟩

theorem NodeSame.trans (h : NodeSame s s') (h' : NodeSame s' s'') : NodeSame s s'' :=
  ⟨h.toLrSame.trans h'.toLrSame, fun x => (h'.node x).trans (h.node x)⟩

theorem NodeSame.setIrq (s : Vgic) (x : VirqId) {f : VgicIrq → VgicIrq}
    (h : ∀ r, (f r).lr = r.lr ∧ (f r).lrNode = r.lrNode) : NodeSame s (s.setIrq x f) :=
  ⟨.setIrq s x fun r => (h r).1, setIrq_field VgicIrq.lrNode fun r => (h r).2⟩

theorem NodeSame.unlinkPd (s : Vgic) (x : VirqId) : NodeSame s (s.unlinkPd x) := by
  have h := NodeSame.setIrq s x (f := fun r => { r with pdNode := false }) fun _ => ⟨rfl, rfl⟩
  exact ⟨.unlinkPd s x, h.node⟩

theorem NodeSame.linkPd (s : Vgic) (x : VirqId) (v : VcpuId) (l : List VirqId) : NodeSame s (s.linkPd x v l) := by
  have h := NodeSame.setIrq s x (f := fun r => { r with pdNode := true }) fun _ => ⟨rfl, rfl⟩
  exact ⟨.linkPd s x v l, h.node⟩

theorem NodeSame.insertIntoPdlist (s : Vgic) (x : VirqId) (v : VcpuId) : NodeSame s (s.insertIntoPdlist x v) := by
  unfold Vgic.insertIntoPdlist
  split
  · exact .refl s
  · have h := NodeSame.setIrq s x (f := fun r => { r with pdq := true }) fun _ => ⟨rfl, rfl⟩
    dsimp only
    split
    · exact h.trans (.linkPd _ x v _)
    · split
      · exact h.trans (.linkPd _ x v _)
      · exact h

theorem NodeSame.vcpuResume (s : Vgic) (v : VcpuId) : NodeSame s (s.vcpuResume v) := by
  refine ⟨(vcpuResume_same s v).2, fun x => ?_⟩
  unfold Vgic.vcpuResume
  split <;> rfl

theorem NodeSame.vcpuInjectVirq (s : Vgic) (c : Nat) (v : VcpuId) (x : VirqId) :
    NodeSame s (s.vcpuInjectVirq c v x).1 := by
  have h := NodeSame.insertIntoPdlist s x v
  unfold Vgic.vcpuInjectVirq
  split
  · exact .refl s
  · split
    · exact .refl s
    · split
      · exact .refl s
      · dsimp only
        split
        · split <;> exact h
        · split
          · exact h.trans (.vcpuResume _ v)
          · exact h

theorem NodeSame.virqCpending (s : Vgic) (x : VirqId) : NodeSame s (s.virqCpending x) := by
  have h := NodeSame.setIrq s x (f := fun r => { r with pdq := false }) fun _ => ⟨rfl, rfl⟩
  unfold Vgic.virqCpending
  dsimp only
  split
  · exact (h.trans (.unlinkPd _ x)).trans (.setIrq _ x fun _ => by exact ⟨rfl, rfl⟩)
  · exact h

theorem NodeSame.virqEnable (s : Vgic) (x : VirqId) (enable : Bool) : NodeSame s (s.virqEnable x enable) := by
  have h := NodeSame.setIrq s x (f := fun r => { r with enable := enable }) fun _ => ⟨rfl, rfl⟩
  unfold Vgic.virqEnable
  dsimp only
  split
  · exact h
  · exact h.trans (.virqCpending _ x)

theorem NodeSame.requeued (s : Vgic) (n : VcpuId) (x : VirqId) : NodeSame s (s.requeued n x) := by
  have h := NodeSame.setIrq s x (f := fun r => { r with vcpu := some n }) fun _ => ⟨rfl, rfl⟩
  exact (h.trans (.unlinkPd _ x)).trans (.setIrq _ x fun _ => by exact ⟨rfl, rfl⟩)

theorem NodeSame.migrateVirq (cfg : VgicConfig) (s : Vgic) (c : Nat) (n : VcpuId) (x : VirqId) :
    NodeSame s (s.migrateVirq cfg c n x).1 := by
  have h := NodeSame.setIrq s x (f := fun r => { r with vcpu := some n }) fun _ => ⟨rfl, rfl⟩
  unfold Vgic.migrateVirq
  split
  · exact h
  split
  · exact .refl s
  split
  · exact h
  split
  · dsimp only
    exact .setIrq s x fun _ => by exact ⟨rfl, rfl⟩
  split
  · exact (NodeSame.requeued s n x).trans (.vcpuInjectVirq _ c n x)
  · exact .refl s

theorem NodeSame.irouterWrite (cfg : VgicConfig) {index value : Nat}
    (h : s.irouterWrite cfg c v index value = some s') : NodeSame s s' := by
  unfold Vgic.irouterWrite at h
  split at h
  · cases h
    exact .refl s
  · rename_i x n _
    split at h
    · cases h
    · cases h
      have hm := NodeSame.migrateVirq cfg s c n x
      split
      · exact hm.trans (.setIrq _ x fun _ => by exact ⟨rfl, rfl⟩)
      · exact hm

/-- the steps that leave the registers alone -/
theorem NodeSame.step {op : VgicOp} (h : vgicStep cfg s op = some s') (ho : op.lrs = false) : NodeSame s s' := by
  refine ⟨.step h ho, ?_⟩
  cases op <;> simp only [VgicOp.lrs, Bool.true_eq_false] at ho <;> simp only [vgicStep] at h
  case inject c vm vcpu virq =>
    obtain ⟨r, hr, rfl⟩ := Option.map_eq_some_iff.mp h
    obtain rfl | ⟨x, v, -, -, rfl, -⟩ := injectVirq_some hr
    · exact fun _ => rfl
    · exact (NodeSame.vcpuInjectVirq s c v x).node
  case enable x enable =>
    cases h
    exact (NodeSame.virqEnable s x enable).node
  case cpending x =>
    cases h
    exact (NodeSame.virqCpending s x).node
  case priority x value =>
    cases h
    exact (NodeSame.setIrq s x fun _ => by exact ⟨rfl, rfl⟩).node
  case group x group =>
    cases h
    exact (NodeSame.setIrq s x fun _ => by exact ⟨rfl, rfl⟩).node
  case irouter c v index value => exact (NodeSame.irouterWrite cfg h).node
  case start v =>
    split at h
    · cases h
      exact fun _ => rfl
    · cases h
  case stop v =>
    cases h
    exact fun _ => rfl
  case resume v =>
    cases h
    exact (NodeSame.vcpuResume s v).node
  case place v c =>
    cases h
    exact fun _ => rfl

/-- the owners and their indices are as before, no register has another INTID, and none became valid -/
structure OwnersSame (cfg : VgicConfig) (s s' : Vgic) : Prop where
  lrHead : s'.lrHead = s.lrHead
  node : ∀ x, (s'.irqs x).lrNode = (s.irqs x).lrNode
  index : ∀ v, ∀ x ∈ s.lrHead v, (s'.irqs x).lr = (s.irqs x).lr
  indexOk : IndexOk cfg s'
  virq : ∀ v k, (s'.regs cfg v k).virq = (s.regs cfg v k).virq
  valid : ∀ v k, (s'.regs cfg v k).state ≠ .invalid → (s.regs cfg v k).state ≠ .invalid
  vcpu : s'.vcpu = s.vcpu
  clash : s'.clash = s.clash

theorem LrCore.owners (h : LrCore cfg s) (h' : OwnersSame cfg s s') : LrCore cfg s' := by
  refine ⟨h.loaded.of_vcpu h'.vcpu, ?_, ?_, h'.lrHead ▸ h.apart, ?_, h'.indexOk, ?_, ?_, h'.clash.trans h.clash⟩
  · intro v x hx
    rw [h'.lrHead] at hx
    rw [h'.node]
    exact h.node v x hx
  · intro x hx
    rw [h'.node] at hx
    rw [h'.lrHead]
    exact h.onList x hx
  · intro v x hx
    rw [h'.lrHead] at hx
    exact h.belongs v x hx
  · intro v x hx
    rw [h'.lrHead] at hx
    rw [h'.index v x hx, h'.virq]
    exact h.resident v x hx
  · intro v k hk hv
    obtain ⟨x, hx, he⟩ := h.owned v k hk (h'.valid v k hv)
    exact ⟨x, h'.lrHead ▸ hx, (h'.index v x hx).trans he⟩

/-- the owners are as before, and as valid as before -/
theorem LrInv.owners (h : LrInv cfg s) (h' : OwnersSame cfg s s') (hq : ∀ v, ∀ x ∈ s'.pdHead v, Belongs cfg v x)
    (hvalid : ∀ v k, s'.Outside v → s.Outside v ∧
      ((s.regs cfg v k).state ≠ .invalid → (s'.regs cfg v k).state ≠ .invalid)) : LrInv cfg s' := by
  refine ⟨h.toLrCore.owners h', hq, ?_⟩
  intro v x hx ho
  rw [h'.lrHead] at hx
  rw [h'.index v x hx]
  obtain ⟨hout, hkeep⟩ := hvalid v (s.irqs x).lr ho
  exact hkeep (h.valid v x hx hout)

theorem Outside.of_same (hv : s'.vcpu = s.vcpu) (hg : s'.guest = s.guest) (h : s'.Outside v) : s.Outside v := by
  intro c hc
  rw [← hg]
  exact h c (hv ▸ hc)

theorem LrInv.same (h : LrInv cfg s) (h' : NodeSame s s') (hq : ∀ v, ∀ x ∈ s'.pdHead v, Belongs cfg v x) :
    LrInv cfg s' := by
  have hregs : s'.regs cfg = s.regs cfg := h'.toLrSame.regsSame.regs
  refine h.owners ⟨h'.lrHead, h'.node, fun _ x _ => h'.index x, ?_, ?_, ?_, h'.vcpu, h'.clash⟩ hq ?_
  · intro x
    rw [h'.index]
    exact h.index x
  · intro v k
    rw [hregs]
  · intro v k
    rw [hregs]
    exact id
  · intro v k ho
    rw [hregs]
    exact ⟨ho.of_same h'.vcpu h'.guest, id⟩

/-! ## the pending lists -/

/-- what is on a pending list after an injection -/
theorem mem_pdHead_inject {c : Nat} (hy : y ∈ (s.vcpuInjectVirq c v x).1.pdHead w) :
    y ∈ s.pdHead w ∨ y = x ∧ w = v ∧ (s.irqs x).enable = true := by
  obtain ⟨hs, -⟩ | ⟨he, -, -, hs, -⟩ := vcpuInjectVirq_cases s c v x
  · rw [hs.pdHead] at hy
    exact .inl hy
  · rw [hs.pdHead] at hy
    obtain ⟨-, e⟩ | ⟨-, -, hq⟩ | ⟨-, -, hm⟩ := insertIntoPdlist_cases s x v
    · rw [e] at hy
      exact .inl hy
    · obtain ⟨l, hl, e⟩ := hq.pdHead
      rw [e, mem_of_update hl] at hy
      exact hy.symm.imp_right fun h => ⟨h.1, h.2, he⟩
    · rw [hm.pdHead] at hy
      exact .inl hy

theorem mem_pdHead_unqueued (h : Unqueued s s' x) (hy : y ∈ s'.pdHead w) : y ∈ s.pdHead w := by
  rw [h.pdHead, Links.mem_unlink] at hy
  exact hy.1

theorem mem_pdHead_flush (hy : y ∈ (s.flushQueuedVirqs cfg c v).pdHead w) : y ∈ s.pdHead w := by
  refine flushLoop_rule (I := fun t => ∀ w, ∀ y ∈ t.pdHead w, y ∈ s.pdHead w) ?_ _ (fun _ _ h => h) w y hy
  intro t x ht w y hy
  obtain hs | hu := flushVirq_pd cfg c v t x
  · rw [hs.pdHead] at hy
    exact ht w y hy
  · exact ht w y (mem_pdHead_unqueued hu hy)

theorem mem_pdHead_enable (hq : QueueWf s) {enable : Bool} (hy : y ∈ (s.virqEnable x enable).pdHead w) :
    y ∈ s.pdHead w := by
  have hs : PdSame s (s.setIrq x fun r => { r with enable := enable }) :=
    .setIrq s x fun _ => by exact ⟨rfl, rfl, rfl⟩
  unfold Vgic.virqEnable at hy
  dsimp only at hy
  split at hy
  · exact hy
  · have hm := mem_pdHead_unqueued ((hq.same hs).unqueued_virqCpending x) hy
    exact hm

theorem irouterVcpu_vm {vm value : Nat} {n : VcpuId} (h : irouterVcpu cfg vm value = some n) : n.vm = vm := by
  unfold irouterVcpu at h
  obtain ⟨-, e⟩ := Option.ite_none_right_eq_some.mp h
  cases e
  rfl

/-- the interrupt that `hv_migrate_virq` queues again is of the new vCPU's VM -/
theorem queued_irouter (hq : QueueWf s) (h : ∀ v, ∀ x ∈ s.pdHead v, Belongs cfg v x) {index value : Nat}
    (hs : s.irouterWrite cfg c v index value = some s') : ∀ w, ∀ y ∈ s'.pdHead w, Belongs cfg w y := by
  unfold Vgic.irouterWrite at hs
  split at hs
  · cases hs
    exact h
  · rename_i x n hm
    split at hs
    · cases hs
    · rename_i hnull
      cases hs
      have hbelongs : cfg.hwintid x ≠ 0 → Belongs cfg n x := by
        intro hhw
        have hvcpu : (s.irqs x).vcpu ≠ none := fun e => hnull ⟨e, hhw⟩
        unfold Vgic.irouterMoves at hm
        split at hm
        · rename_i x' n' hx hn
          split at hm
          · cases hm
          · cases hm
            have hvm := irouterVcpu_vm hn
            unfold getVirq at hx
            split at hx
            · cases hx
              exact absurd (hq.privVcpu _ _ hhw) hvcpu
            · split at hx
              · cases hx
                refine ⟨hvm.symm, ?_⟩
                by_contra hmap
                rw [Bool.not_eq_true, Option.isSome_eq_false_iff, Option.isNone_iff_eq_none] at hmap
                refine hhw ?_
                show (cfg.spiMap _ _).getD 0 = 0
                rw [hmap]
                rfl
              · cases hx
        · cases hm
      have hmigrate : ∀ w, ∀ y ∈ (s.migrateVirq cfg c n x).1.pdHead w, Belongs cfg w y := by
        intro w y hy
        unfold Vgic.migrateVirq at hy
        split at hy
        · exact h w y hy
        rename_i hhw
        split at hy
        · exact h w y hy
        split at hy
        · exact h w y hy
        split at hy
        · exact h w y hy
        split at hy
        · obtain hy | ⟨rfl, rfl, -⟩ := mem_pdHead_inject hy
          · have hm := mem_pdHead_unqueued (unqueued_requeued s n x) hy
            exact h w y hm
          · exact hbelongs hhw
        · exact h w y hy
      split
      · exact hmigrate
      · exact hmigrate

theorem mem_clear {L : VcpuId → List VirqId} (hy : y ∈ Function.update L v [] w) : w ≠ v ∧ y ∈ L w := by
  by_cases e : w = v
  · subst e
    rw [Function.update_self] at hy
    cases hy
  · rw [Function.update_of_ne e] at hy
    exact ⟨e, hy⟩

/-- the pending lists hold interrupts of their vCPUs -/
theorem queued_step (hq : QueueWf s) (h : ∀ v, ∀ x ∈ s.pdHead v, Belongs cfg v x) {op : VgicOp}
    (hg : LrGuard cfg s op) (hs : vgicStep cfg s op = some s') : ∀ v, ∀ x ∈ s'.pdHead v, Belongs cfg v x := by
  by_cases ho : op.pd = false
  · rw [(PdSame.step hs ho).pdHead]
    exact h
  cases op <;> simp only [VgicOp.pd, not_true, Bool.true_eq_false, not_false_eq_true] at ho <;>
    simp only [vgicStep] at hs
  case inject c vm vcpu virq =>
    obtain ⟨r, hr, rfl⟩ := Option.map_eq_some_iff.mp hs
    obtain rfl | ⟨x, v, hx, hv, rfl, -⟩ := injectVirq_some hr
    · exact h
    · intro w y hy
      obtain hy | ⟨rfl, rfl, he⟩ := mem_pdHead_inject hy
      · exact h w y hy
      · exact hg y w hx hv he
  case enable x enable =>
    cases hs
    exact fun w y hy => h w y (mem_pdHead_enable hq hy)
  case cpending x =>
    cases hs
    exact fun w y hy => h w y (mem_pdHead_unqueued (hq.unqueued_virqCpending x) hy)
  case irouter c v index value => exact queued_irouter hq h hs
  case flush c =>
    split at hs
    · cases hs
    · obtain ⟨v, -, rfl⟩ := Option.map_eq_some_iff.mp hs
      exact fun w y hy => h w y (mem_pdHead_flush hy)
  case poweroff c v =>
    split at hs
    · cases hs
      unfold Vgic.vcpuPoweroff
      split
      · exact h
      · exact fun w y hy => h w y (mem_clear hy).2
    · cases hs
  case irqInit v =>
    split at hs
    · cases hs
      exact fun w y hy => h w y (mem_clear hy).2
    · cases hs

/-! ## the flush of one interrupt -/

/-- the free register `k` of the CPU is taken for `x`, which goes on the list of `v` -/
structure Took (cfg : VgicConfig) (s s' : Vgic) (c : Nat) (v : VcpuId) (x : VirqId) (k : Nat) : Prop where
  lrHead : s'.lrHead = Function.update s.lrHead v (s.lrHead v ++ [x])
  self : (s'.irqs x).lr = k ∧ (s'.irqs x).lrNode = true
  other : ∀ y, y ≠ x → (s'.irqs y).lr = (s.irqs y).lr ∧ (s'.irqs y).lrNode = (s.irqs y).lrNode
  ichLr : ∃ val : GicLr, val.virq = cfg.intid x ∧ val.state = .pending ∧
    s'.ichLr = Function.update s.ichLr c (Function.update (s.ichLr c) k val)
  lr : s'.lr = s.lr
  vcpu : s'.vcpu = s.vcpu
  guest : s'.guest = s.guest
  clash : s'.clash = s.clash

/-- the active register of `x` becomes pending, too -/
structure Updated (s s' : Vgic) (c : Nat) (x : VirqId) : Prop where
  lrHead : s'.lrHead = s.lrHead
  index : ∀ y, (s'.irqs y).lr = (s.irqs y).lr ∧ (s'.irqs y).lrNode = (s.irqs y).lrNode
  ichLr : s'.ichLr = Function.update s.ichLr c (Function.update (s.ichLr c) (s.irqs x).lr
    { s.ichLr c (s.irqs x).lr with state := .actPend })
  lr : s'.lr = s.lr
  vcpu : s'.vcpu = s.vcpu
  guest : s'.guest = s.guest
  clash : s'.clash = s.clash

/-- the registers are as before; at most an interrupt on no list loses its index -/
structure Idle (s s' : Vgic) (x : VirqId) : Prop where
  lrHead : s'.lrHead = s.lrHead
  node : ∀ y, (s'.irqs y).lrNode = (s.irqs y).lrNode
  index : ∀ y, (s'.irqs y).lr = (s.irqs y).lr ∨ y = x ∧ (s.irqs x).lrNode = false ∧ (s'.irqs x).lr = LR_INDEX_INVALID
  regs : RegsSame s s'
  guest : s'.guest = s.guest

theorem vgicGetLr_spec (cfg : VgicConfig) (s : Vgic) (c : Nat) : s.vgicGetLr cfg c = LR_INDEX_INVALID ∨
    s.vgicGetLr cfg c < cfg.lrNr ∧ (s.ichLr c (s.vgicGetLr cfg c)).state = .invalid := by
  unfold vgicGetLr
  cases hf : (List.range cfg.lrNr).find? fun k => (s.ichLr c k).state = .invalid with
  | none => exact .inl rfl
  | some k =>
    have hmem := List.mem_range.mp (List.mem_of_find?_eq_some hf)
    have hstate := List.find?_some hf
    exact .inr ⟨hmem, of_decide_eq_true hstate⟩

/-- `move_to_lr_lst` of an interrupt that is on the list already -/
theorem moveToLrLst_same (hx : (s.irqs x).lrNode = true) : NodeSame s (s.moveToLrLst v x) := by
  have h := (NodeSame.unlinkPd s x).trans
    (NodeSame.setIrq (s.unlinkPd x) x (f := fun r => { r with pdq := false }) fun _ => ⟨rfl, rfl⟩)
  unfold moveToLrLst
  dsimp only
  rw [if_pos ((h.node x).trans hx)]
  exact h

/-- `vgic_write_lr` and `move_to_lr_lst` of an interrupt that is on no list -/
theorem took {s₁ : Vgic} (hk : (s.irqs x).lr < 16) (hx : (s.irqs x).lrNode = false)
    (hfree : (s.ichLr c (s.irqs x).lr).state = .invalid) (h₁ : NodeSame (s.vgicWriteLr cfg c x) s₁) :
    Took cfg s (s₁.moveToLrLst v x) c v x (s.irqs x).lr := by
  have hwrite : s.vgicWriteLr cfg c x = { s with
      ichLr := Function.update s.ichLr c (Function.update (s.ichLr c) (s.irqs x).lr
        { virq := cfg.intid x
          pirq := cfg.hwintid x % 2 ^ 13
          priority := (s.irqs x).priority
          group := (s.irqs x).group
          hw := cfg.hwintid x != 0
          state := .pending }) } := by
    unfold vgicWriteLr lrWrite
    rw [if_pos hk, hfree]
    simp
  rw [hwrite] at h₁
  have h₂ : NodeSame s₁ ((s₁.unlinkPd x).setIrq x fun r => { r with pdq := false }) :=
    (NodeSame.unlinkPd s₁ x).trans (.setIrq _ x fun _ => by exact ⟨rfl, rfl⟩)
  have h := h₁.trans h₂
  have hmove : s₁.moveToLrLst v x =
      { ((s₁.unlinkPd x).setIrq x fun r => { r with pdq := false }).setIrq x fun r => { r with lrNode := true } with
        lrHead := Function.update s.lrHead v (s.lrHead v ++ [x]) } := by
    unfold moveToLrLst
    dsimp only
    rw [if_neg, show ((s₁.unlinkPd x).setIrq x fun r => { r with pdq := false }).lrHead = s.lrHead from h.lrHead]
    rw [h.node, Bool.not_eq_true]
    exact hx
  rw [hmove]
  refine ⟨rfl, ?_, fun y hy => ?_, ⟨_, rfl, rfl, h.ichLr⟩, h.lr, h.vcpu, h.guest, h.clash⟩
  · show (((((s₁.unlinkPd x).setIrq x fun r => { r with pdq := false }).setIrq x
      fun r => { r with lrNode := true }).irqs x).lr = _ ∧ _)
    rw [setIrq_self]
    exact ⟨h.index x, rfl⟩
  · show (((((s₁.unlinkPd x).setIrq x fun r => { r with pdq := false }).setIrq x
      fun r => { r with lrNode := true }).irqs y).lr = _ ∧ _)
    rw [setIrq_of_ne _ _ hy]
    exact ⟨h.index y, h.node y⟩

/-- `vgic_update_lr` and `move_to_lr_lst` of an interrupt whose register is active -/
theorem updated {s₁ : Vgic} (hk : (s.irqs x).lr < 16) (hx : (s.irqs x).lrNode = true)
    (hactive : (s.ichLr c (s.irqs x).lr).state = .active) (hown : (s.ichLr c (s.irqs x).lr).virq = cfg.intid x)
    (h₁ : NodeSame (s.vgicUpdateLr cfg c x) s₁) : Updated s (s₁.moveToLrLst v x) c x := by
  have hupdate : s.vgicUpdateLr cfg c x = { s with
      ichLr := Function.update s.ichLr c (Function.update (s.ichLr c) (s.irqs x).lr
        { s.ichLr c (s.irqs x).lr with state := .actPend }) } := by
    unfold vgicUpdateLr lrRead lrWrite
    dsimp only
    rw [if_pos hk, if_pos hactive, if_pos hk, hown]
    simp
  rw [hupdate] at h₁
  have h := h₁.trans (moveToLrLst_same (v := v) ((h₁.node x).trans hx))
  exact ⟨h.lrHead, fun y => ⟨h.index y, h.node y⟩, h.ichLr, h.lr, h.vcpu, h.guest, h.clash⟩

theorem Took.of_index (h : Took cfg (s.setIrq x fun r => { r with lr := k }) s' c v x
      ((s.setIrq x fun r => { r with lr := k }).irqs x).lr) :
    Took cfg s s' c v x k := by
  have hself := h.self
  have hreg := h.ichLr
  rw [setIrq_self] at hself hreg
  refine ⟨h.lrHead, hself, fun y hy => ?_, hreg, h.lr, h.vcpu, h.guest, h.clash⟩
  have hother := h.other y hy
  rw [setIrq_of_ne _ _ hy] at hother
  exact hother

/-- a register that is looked for, and taken if there is one -/
theorem took_found (hlr : cfg.lrNr ≤ 15) (hx : (s.irqs x).lrNode = false) {s₁ : Vgic}
    (h₁ : NodeSame ((s.setIrq x fun r => { r with lr := s.vgicGetLr cfg c }).vgicWriteLr cfg c x) s₁)
    (hfound : ((s.setIrq x fun r => { r with lr := s.vgicGetLr cfg c }).irqs x).lr ≠ LR_INDEX_INVALID) :
    s.vgicGetLr cfg c < cfg.lrNr ∧ (s.ichLr c (s.vgicGetLr cfg c)).state = .invalid ∧
      Took cfg s (s₁.moveToLrLst v x) c v x (s.vgicGetLr cfg c) := by
  rw [setIrq_self] at hfound
  obtain hno | ⟨hk, hfree⟩ := vgicGetLr_spec cfg s c
  · exact absurd hno hfound
  refine ⟨hk, hfree, .of_index (took ?_ ?_ ?_ h₁)⟩
  · rw [setIrq_self]
    show s.vgicGetLr cfg c < 16
    omega
  · rw [setIrq_self]
    exact hx
  · rw [setIrq_self]
    exact hfree

theorem idle_setIrq (hx : (s.irqs x).lrNode = false)
    (hno : ¬ ((s.setIrq x fun r => { r with lr := k }).irqs x).lr ≠ LR_INDEX_INVALID) :
    Idle s (s.setIrq x fun r => { r with lr := k }) x := by
  refine ⟨rfl, setIrq_field VgicIrq.lrNode fun _ => rfl, fun y => ?_, .setIrq s x _, rfl⟩
  by_cases e : y = x
  · exact .inr ⟨e, hx, not_not.mp hno⟩
  · rw [setIrq_of_ne _ _ e]
    exact .inl rfl

/-- **The flush of one interrupt**: a free register is taken, its own active one updated, or none is changed. -/
theorem flushVirq_lr (h : LrCore cfg s) (hv : s.vcpu c = some v) (hb : Belongs cfg v x) (hok : FlushOk cfg s c x) :
    (∃ k < cfg.lrNr, (s.ichLr c k).state = .invalid ∧ (s.irqs x).lrNode = false ∧
      Took cfg s (s.flushVirq cfg c v x).1 c v x k) ∨
    ((s.irqs x).lr < cfg.lrNr ∧ (s.ichLr c (s.irqs x).lr).state = .active ∧
      (s.ichLr c (s.irqs x).lr).virq = cfg.intid x ∧ Updated s (s.flushVirq cfg c v x).1 c x) ∨
    Idle s (s.flushVirq cfg c v x).1 x := by
  have hlr := cfg.lrNr_le
  unfold flushVirq
  by_cases hhw : cfg.hwintid x ≠ 0
  · have hx := hok.hw hhw
    rw [if_pos hhw]
    dsimp only
    split
    · rename_i hno
      exact .inr (.inr (idle_setIrq hx (not_not.mpr hno)))
    · rename_i hfound
      obtain ⟨hk, hfree, ht⟩ := took_found hlr hx (.refl _) hfound
      exact .inl ⟨_, hk, hfree, hx, ht⟩
  · rw [if_neg hhw]
    have hhw := not_not.mp hhw
    by_cases hnone : (s.irqs x).lr = LR_INDEX_INVALID
    · have hx : (s.irqs x).lrNode = false := by
        rw [← Bool.not_eq_true]
        intro hn
        obtain ⟨w, hw⟩ := h.onList x hn
        have := (h.resident w x hw).1
        rw [hnone, LR_INDEX_INVALID] at this
        lia
      rw [if_pos hnone]
      dsimp only
      split
      · rename_i hno
        exact .inr (.inr (idle_setIrq hx (not_not.mpr hno)))
      · rename_i hfound
        obtain ⟨hk, hfree, ht⟩ := took_found hlr hx
          (.setIrq _ x (f := fun r => { r with pending := true }) fun _ => ⟨rfl, rfl⟩) hfound
        exact .inl ⟨_, hk, hfree, hx, ht⟩
    · rw [if_neg hnone]
      have hk : (s.irqs x).lr < cfg.lrNr := (h.index x).resolve_left hnone
      have hk16 : (s.irqs x).lr < 16 := by lia
      have hread : s.lrRead c (s.irqs x).lr = s.ichLr c (s.irqs x).lr := if_pos hk16
      have hfree := hok.free hhw hnone
      have hactive := hok.active hhw hnone
      rw [hread] at hfree hactive ⊢
      split
      · rename_i hstate
        have hown := hactive hstate
        -- the owner of the register has the INTID of `x`, and is `x`
        have hregs : s.regs cfg v = s.ichLr c := regs_of_loaded h.loaded hv
        obtain ⟨y, hy, he⟩ := h.owned v (s.irqs x).lr hk (by rw [hregs, hstate]; decide)
        have hyx : y = x := by
          refine (h.belongs v y hy).inj hb ?_
          rw [← (h.resident v y hy).2, he, hregs, hown]
        rw [hyx] at hy
        refine .inr (.inl ⟨hk, hstate, hown, updated hk16 (h.node v x hy) hstate hown ?_⟩)
        exact .setIrq _ x fun _ => by exact ⟨rfl, rfl⟩
      · rename_i hstate
        refine .inl ⟨_, hk, hstate, hfree hstate, took hk16 (hfree hstate) hstate ?_⟩
        exact .setIrq _ x fun _ => by exact ⟨rfl, rfl⟩
      · exact .inr (.inr ⟨rfl, fun _ => rfl, fun _ => .inl rfl, .refl s, rfl⟩)

/-- **A free register is taken.** -/
theorem LrInv.took (h : LrInv cfg s) (hq : ∀ v, ∀ x ∈ s'.pdHead v, Belongs cfg v x) (hv : s.vcpu c = some v)
    (hout : s.guest c = false) (hb : Belongs cfg v x) (hk : k < cfg.lrNr) (hfree : (s.ichLr c k).state = .invalid)
    (hx : (s.irqs x).lrNode = false) (ht : Took cfg s s' c v x k) : LrInv cfg s' := by
  obtain ⟨val, hvirq, hpending, hich⟩ := ht.ichLr
  have hregs := regs_write h.loaded ht.vcpu ht.lr hich
  have hloaded : s.regs cfg v = s.ichLr c := regs_of_loaded h.loaded hv
  have hfresh := h.toLrCore.not_on hx
  have hself : s'.regs cfg v = Function.update (s.regs cfg v) k val := by
    rw [hregs, if_pos hv, hloaded]
  have hother : ∀ w, w ≠ v → s'.regs cfg w = s.regs cfg w := by
    intro w hw
    rw [hregs, if_neg]
    intro e
    exact hw (Option.some.inj (e.symm.trans hv))
  have hhead : ∀ w, w ≠ v → s'.lrHead w = s.lrHead w := by
    intro w hw
    rw [ht.lrHead, Function.update_of_ne hw]
  have hheadv : s'.lrHead v = s.lrHead v ++ [x] := by rw [ht.lrHead, Function.update_self]
  have hmem : ∀ {w y}, y ∈ s'.lrHead w → y ∈ s.lrHead w ∧ y ≠ x ∨ w = v ∧ y = x := by
    intro w y hy
    by_cases e : w = v
    · rw [e, hheadv, List.mem_append, List.mem_singleton] at hy
      rw [e]
      obtain hy | hy := hy
      · exact .inl ⟨hy, fun e => hfresh v (e ▸ hy)⟩
      · exact .inr ⟨rfl, hy⟩
    · rw [hhead w e] at hy
      exact .inl ⟨hy, fun e => hfresh w (e ▸ hy)⟩
  have hold : ∀ {w y}, y ∈ s.lrHead w → y ∈ s'.lrHead w := by
    intro w y hy
    by_cases e : w = v
    · rw [e, hheadv]
      exact List.mem_append_left _ (e ▸ hy)
    · rw [hhead w e]
      exact hy
  have hvout : s.Outside v := by
    intro d hd
    rw [h.loaded.once hd hv]
    exact hout
  -- the owners of the vCPU have other registers than the free one
  have hne : ∀ y ∈ s.lrHead v, (s.irqs y).lr ≠ k := by
    intro y hy e
    have := h.valid v y hy hvout
    rw [e, hloaded] at this
    exact this hfree
  have hreg : ∀ w, ∀ y ∈ s.lrHead w, s'.regs cfg w (s.irqs y).lr = s.regs cfg w (s.irqs y).lr := by
    intro w y hy
    by_cases e : w = v
    · subst e
      rw [hself, Function.update_of_ne (hne y hy)]
    · rw [hother w e]
  have houtside : ∀ w, s'.Outside w → s.Outside w := by
    intro w ho d hd
    rw [← ht.guest]
    exact ho d (ht.vcpu ▸ hd)
  refine ⟨⟨h.loaded.of_vcpu ht.vcpu, ?_, ?_, ?_, ?_, ?_, ?_, ?_, ht.clash.trans h.clash⟩, hq, ?_⟩
  · intro w y hy
    obtain ⟨hy, hyx⟩ | ⟨-, rfl⟩ := hmem hy
    · rw [(ht.other y hyx).2]
      exact h.node w y hy
    · exact ht.self.2
  · intro y hy
    by_cases e : y = x
    · subst e
      exact ⟨v, hheadv ▸ List.mem_append_right _ (List.mem_singleton_self y)⟩
    · rw [(ht.other y e).2] at hy
      obtain ⟨w, hw⟩ := h.onList y hy
      exact ⟨w, hold hw⟩
  · rw [ht.lrHead]
    exact h.apart.link hfresh (List.perm_append_singleton _ _)
  · intro w y hy
    obtain ⟨hy, -⟩ | ⟨rfl, rfl⟩ := hmem hy
    · exact h.belongs w y hy
    · exact hb
  · intro y
    by_cases e : y = x
    · rw [e, ht.self.1]
      exact .inr hk
    · rw [(ht.other y e).1]
      exact h.index y
  · intro w y hy
    obtain ⟨hy, hyx⟩ | ⟨rfl, rfl⟩ := hmem hy
    · rw [(ht.other y hyx).1, hreg w y hy]
      exact h.resident w y hy
    · rw [ht.self.1, hself, Function.update_self]
      exact ⟨hk, hvirq⟩
  · intro w j hj hvalid
    by_cases e : w = v ∧ j = k
    · obtain ⟨rfl, rfl⟩ := e
      exact ⟨x, hheadv ▸ List.mem_append_right _ (List.mem_singleton_self x), ht.self.1⟩
    · have hsame : s'.regs cfg w j = s.regs cfg w j := by
        by_cases ew : w = v
        · subst ew
          rw [hself, Function.update_of_ne fun e' => e ⟨rfl, e'⟩]
        · rw [hother w ew]
      rw [hsame] at hvalid
      obtain ⟨y, hy, rfl⟩ := h.owned w j hj hvalid
      exact ⟨y, hold hy, (ht.other y fun e' => hfresh w (e' ▸ hy)).1⟩
  · intro w y hy ho
    obtain ⟨hy, hyx⟩ | ⟨rfl, rfl⟩ := hmem hy
    · rw [(ht.other y hyx).1, hreg w y hy]
      exact h.valid w y hy (houtside w ho)
    · rw [ht.self.1, hself, Function.update_self, hpending]
      decide

/-- a valid register keeps its INTID and stays valid -/
theorem LrInv.updated (h : LrInv cfg s) (hq : ∀ v, ∀ x ∈ s'.pdHead v, Belongs cfg v x) (hv : s.vcpu c = some v)
    (hactive : (s.ichLr c (s.irqs x).lr).state = .active) (hu : Updated s s' c x) : LrInv cfg s' := by
  have hregs := regs_write h.loaded hu.vcpu hu.lr hu.ichLr
  have hloaded : s.regs cfg v = s.ichLr c := regs_of_loaded h.loaded hv
  -- no register changes its INTID, nor whether it is valid
  have hkeep : ∀ w j, (s'.regs cfg w j).virq = (s.regs cfg w j).virq ∧
      ((s'.regs cfg w j).state ≠ .invalid ↔ (s.regs cfg w j).state ≠ .invalid) := by
    intro w j
    rw [hregs]
    split
    · rename_i hw
      cases hv.symm.trans hw
      rw [hloaded]
      by_cases e : j = (s.irqs x).lr
      · rw [e, Function.update_self, hactive]
        refine ⟨rfl, ?_⟩
        show LrState.actPend ≠ .invalid ↔ LrState.active ≠ .invalid
        decide
      · rw [Function.update_of_ne e]
        exact ⟨rfl, Iff.rfl⟩
    · exact ⟨rfl, Iff.rfl⟩
  refine h.owners ⟨hu.lrHead, fun y => (hu.index y).2, fun _ y _ => (hu.index y).1, ?_, fun w j => (hkeep w j).1,
    fun w j => (hkeep w j).2.mp, hu.vcpu, hu.clash⟩ hq fun w j ho => ⟨ho.of_same hu.vcpu hu.guest, (hkeep w j).2.mpr⟩
  intro y
  rw [(hu.index y).1]
  exact h.index y

theorem LrInv.idle (h : LrInv cfg s) (hq : ∀ v, ∀ x ∈ s'.pdHead v, Belongs cfg v x) (hi : Idle s s' x) :
    LrInv cfg s' := by
  have hindex : ∀ w, ∀ y ∈ s.lrHead w, (s'.irqs y).lr = (s.irqs y).lr := by
    intro w y hy
    refine (hi.index y).resolve_right ?_
    rintro ⟨rfl, hx, -⟩
    exact h.toLrCore.not_on hx w hy
  refine h.owners ⟨hi.lrHead, hi.node, hindex, ?_, ?_, ?_, hi.regs.vcpu, hi.regs.clash⟩ hq ?_
  · intro y
    obtain e | ⟨rfl, -, e⟩ := hi.index y
    · rw [e]
      exact h.index y
    · exact .inl e
  · intro w j
    rw [hi.regs.regs]
  · intro w j
    rw [hi.regs.regs]
    exact id
  · intro w j ho
    rw [hi.regs.regs]
    exact ⟨ho.of_same hi.regs.vcpu hi.guest, id⟩

/-! ## the flush -/

/-- what may be flushed may still be when another interrupt was -/
theorem FlushOk.congr (hok : FlushOk cfg s c y) (hlr : (s'.irqs y).lr = (s.irqs y).lr)
    (hnode : (s'.irqs y).lrNode = (s.irqs y).lrNode) (hread : ∀ k, s'.lrRead c k = s.lrRead c k ∨
      (s'.lrRead c k).state = .pending ∨ (s'.lrRead c k).state = .actPend) : FlushOk cfg s' c y := by
  refine ⟨fun hhw => hnode.trans (hok.hw hhw), fun hhw hne hstate => ?_, fun hhw hne hstate => ?_⟩
  · rw [hlr] at hne hstate
    rw [hnode]
    obtain e | e | e := hread (s.irqs y).lr
    · rw [e] at hstate
      exact hok.free hhw hne hstate
    · cases e.symm.trans hstate
    · cases e.symm.trans hstate
  · rw [hlr] at hne hstate ⊢
    obtain e | e | e := hread (s.irqs y).lr
    · rw [e] at hstate ⊢
      exact hok.active hhw hne hstate
    · cases e.symm.trans hstate
    · cases e.symm.trans hstate

/-- one register of the CPU is written -/
theorem lrRead_write {val : GicLr} (hich : s'.ichLr = Function.update s.ichLr c (Function.update (s.ichLr c) k val))
    (hval : val.state = .pending ∨ val.state = .actPend) (j : Nat) : s'.lrRead c j = s.lrRead c j ∨
      (s'.lrRead c j).state = .pending ∨ (s'.lrRead c j).state = .actPend := by
  unfold lrRead
  rw [hich, Function.update_self]
  split
  · by_cases e : j = k
    · rw [e, Function.update_self]
      exact .inr hval
    · rw [Function.update_of_ne e]
      exact .inl rfl
  · exact .inl rfl

/-- what one round of the flush keeps -/
structure Round (cfg : VgicConfig) (s s' : Vgic) (c : Nat) (x : VirqId) : Prop where
  inv : LrInv cfg s'
  vcpu : s'.vcpu = s.vcpu
  guest : s'.guest = s.guest
  flushOk : ∀ y, y ≠ x → FlushOk cfg s c y → FlushOk cfg s' c y

theorem LrInv.round (h : LrInv cfg s) (hv : s.vcpu c = some v) (hout : s.guest c = false) (hb : Belongs cfg v x)
    (hok : FlushOk cfg s c x) : Round cfg s (s.flushVirq cfg c v x).1 c x := by
  have hq : ∀ w, ∀ y ∈ (s.flushVirq cfg c v x).1.pdHead w, Belongs cfg w y := by
    intro w y hy
    obtain hs | hu := flushVirq_pd cfg c v s x
    · rw [hs.pdHead] at hy
      exact h.queued w y hy
    · exact h.queued w y (mem_pdHead_unqueued hu hy)
  obtain ⟨k, hk, hfree, hx, ht⟩ | ⟨hk, hactive, -, hu⟩ | hi := flushVirq_lr h.toLrCore hv hb hok
  · refine ⟨h.took hq hv hout hb hk hfree hx ht, ht.vcpu, ht.guest, fun y hy hoky => ?_⟩
    obtain ⟨val, -, hpending, hich⟩ := ht.ichLr
    exact hoky.congr (ht.other y hy).1 (ht.other y hy).2 (lrRead_write hich (.inl hpending))
  · refine ⟨h.updated hq hv hactive hu, hu.vcpu, hu.guest, fun y _ hoky => ?_⟩
    exact hoky.congr (hu.index y).1 (hu.index y).2 (lrRead_write hu.ichLr (.inr rfl))
  · refine ⟨h.idle hq hi, hi.regs.vcpu, hi.guest, fun y hy hoky => ?_⟩
    refine hoky.congr ((hi.index y).resolve_right fun e => hy e.1) (hi.node y) fun j => .inl ?_
    unfold lrRead
    rw [hi.regs.ichLr]

theorem LrInv.flushLoop (hl : ∀ x ∈ l, Belongs cfg v x) (hn : l.Nodup) : ∀ {s : Vgic}, LrInv cfg s →
    s.vcpu c = some v → s.guest c = false → (∀ x ∈ l, FlushOk cfg s c x) →
    LrInv cfg (Vgic.flushLoop cfg c v l s) := by
  induction l with
  | nil => exact fun h _ _ _ => h
  | cons x l ih =>
    intro s h hv hout hok
    obtain ⟨hx, hn⟩ := List.nodup_cons.mp hn
    have hr := h.round hv hout (hl x (.head _)) (hok x (.head _))
    rw [Vgic.flushLoop]
    split
    · refine ih (fun y hy => hl y (.tail _ hy)) hn hr.inv (hr.vcpu ▸ hv) (hr.guest ▸ hout) fun y hy => ?_
      exact hr.flushOk y (fun e => hx (e ▸ hy)) (hok y (.tail _ hy))
    · exact hr.inv

/-! ## the sync -/

/-- the interrupts of `l`, on the list of `v`, are on it if their registers are valid; nothing else changed -/
structure Synced (cfg : VgicConfig) (s s' : Vgic) (v : VcpuId) (l : List VirqId) : Prop where
  core : LrCore cfg s'
  regs : RegsSame s s'
  guest : s'.guest = s.guest
  kept : ∀ w, ∀ y ∈ s'.lrHead w, y ∈ s.lrHead w ∧ (s'.irqs y).lr = (s.irqs y).lr
  stay : ∀ w, ∀ y ∈ s.lrHead w, (y ∈ l → (s.regs cfg v (s.irqs y).lr).state ≠ .invalid) → y ∈ s'.lrHead w
  valid : ∀ x ∈ l, x ∈ s'.lrHead v → (s'.regs cfg v (s'.irqs x).lr).state ≠ .invalid

theorem freeVirq_self (s : Vgic) (x : VirqId) :
    ((s.freeVirq x).irqs x).lr = 0 ∧ ((s.freeVirq x).irqs x).lrNode = false := by
  unfold freeVirq unlinkLr
  dsimp only
  rw [setIrq_self, setIrq_self]
  exact ⟨rfl, rfl⟩

theorem freeVirq_other (s : Vgic) (h : y ≠ x) : (s.freeVirq x).irqs y = s.irqs y := by
  unfold freeVirq unlinkLr
  dsimp only
  rw [setIrq_of_ne _ _ h, setIrq_of_ne _ _ h]

theorem LrCore.free (h : LrCore cfg s) (hx : x ∈ s.lrHead v)
    (hinvalid : (s.regs cfg v (s.irqs x).lr).state = .invalid) : LrCore cfg (s.freeVirq x) := by
  have hregs : RegsSame s (s.freeVirq x) := ⟨rfl, rfl, rfl, rfl⟩
  have hmem : ∀ {w y}, y ∈ (s.freeVirq x).lrHead w ↔ y ∈ s.lrHead w ∧ y ≠ x := Links.mem_unlink
  refine ⟨h.loaded.of_vcpu rfl, ?_, ?_, h.apart.unlink x, ?_, ?_, ?_, ?_, h.clash⟩
  · intro w y hy
    obtain ⟨hy, hyx⟩ := hmem.mp hy
    rw [freeVirq_other s hyx]
    exact h.node w y hy
  · intro y hy
    have hyx : y ≠ x := by
      rintro rfl
      rw [(freeVirq_self s y).2] at hy
      cases hy
    rw [freeVirq_other s hyx] at hy
    obtain ⟨w, hw⟩ := h.onList y hy
    exact ⟨w, hmem.mpr ⟨hw, hyx⟩⟩
  · exact fun w y hy => h.belongs w y (hmem.mp hy).1
  · intro y
    by_cases e : y = x
    · rw [e, (freeVirq_self s x).1]
      exact .inr (Nat.lt_of_le_of_lt (Nat.zero_le _) (h.resident v x hx).1)
    · rw [freeVirq_other s e]
      exact h.index y
  · intro w y hy
    obtain ⟨hy, hyx⟩ := hmem.mp hy
    rw [freeVirq_other s hyx, hregs.regs]
    exact h.resident w y hy
  · intro w k hk hvalid
    rw [hregs.regs] at hvalid
    obtain ⟨y, hy, rfl⟩ := h.owned w k hk hvalid
    have hyx : y ≠ x := by
      rintro rfl
      rw [h.apart.once hy hx] at hvalid
      exact hvalid hinvalid
    exact ⟨y, hmem.mpr ⟨hy, hyx⟩, by rw [freeVirq_other s hyx]⟩

/-- one round of the sync -/
theorem LrCore.sync (h : LrCore cfg s) (hv : s.vcpu c = some v) (hx : x ∈ s.lrHead v) :
    Synced cfg s (s.syncVirq cfg c x) v [x] := by
  have hlr := cfg.lrNr_le
  obtain ⟨hk, hown⟩ := h.resident v x hx
  have hregs : s.regs cfg v = s.ichLr c := regs_of_loaded h.loaded hv
  have hread : s.lrRead c (s.irqs x).lr = s.regs cfg v (s.irqs x).lr := by
    rw [hregs]
    exact if_pos (by lia)
  have hindex : (s.irqs x).lr ≠ LR_INDEX_INVALID := by
    unfold LR_INDEX_INVALID
    lia
  have hflags : ∀ f : VgicIrq → VgicIrq, (∀ r, (f r).lr = r.lr ∧ (f r).lrNode = r.lrNode) →
      (s.regs cfg v (s.irqs x).lr).state ≠ .invalid → Synced cfg s (s.setIrq x f) v [x] := by
    intro f hf hvalid
    have hsame := NodeSame.setIrq s x hf
    have hcore : LrCore cfg (s.setIrq x f) := by
      refine h.owners ⟨rfl, hsame.node, fun _ y _ => hsame.index y, ?_, ?_, ?_, rfl, rfl⟩
      · intro y
        rw [hsame.index]
        exact h.index y
      · intro w k
        rw [hsame.toLrSame.regsSame.regs]
      · intro w k
        rw [hsame.toLrSame.regsSame.regs]
        exact id
    refine ⟨hcore, .setIrq s x f, rfl, fun w y hy => ⟨hy, hsame.index y⟩, fun w y hy _ => hy, fun y hy _ => ?_⟩
    rw [List.mem_singleton.mp hy, hsame.index, hsame.toLrSame.regsSame.regs]
    exact hvalid
  unfold Vgic.syncVirq
  rw [if_neg hindex]
  dsimp only
  rw [hread, if_neg (not_not.mpr hown.symm)]
  split
  · rename_i hinvalid
    refine ⟨h.free hx hinvalid, ⟨rfl, rfl, rfl, rfl⟩, rfl, ?_, ?_, ?_⟩
    · intro w y hy
      obtain ⟨hy, hyx⟩ := Links.mem_unlink.mp hy
      exact ⟨hy, by rw [freeVirq_other s hyx]⟩
    · intro w y hy hstay
      refine Links.mem_unlink.mpr ⟨hy, ?_⟩
      rintro rfl
      exact hstay (List.mem_singleton_self y) hinvalid
    · intro y hy hm
      exact absurd (List.mem_singleton.mp hy) (Links.mem_unlink.mp hm).2
  · rename_i hstate
    exact hflags _ (fun _ => ⟨rfl, rfl⟩) (by rw [hstate]; decide)
  · rename_i hstate
    exact hflags _ (fun _ => ⟨rfl, rfl⟩) (by rw [hstate]; decide)
  · rename_i hstate
    exact hflags _ (fun _ => ⟨rfl, rfl⟩) (by rw [hstate]; decide)

theorem LrCore.syncAll (hn : l.Nodup) : ∀ {s : Vgic}, LrCore cfg s → s.vcpu c = some v → (∀ x ∈ l, x ∈ s.lrHead v) →
    Synced cfg s (l.foldl (syncVirq cfg c) s) v l := by
  induction l with
  | nil => exact fun h _ _ => ⟨h, .refl _, rfl, fun _ _ hy => ⟨hy, rfl⟩, fun _ _ hy _ => hy, nofun⟩
  | cons x l ih =>
    intro s h hv hl
    obtain ⟨hx, hn⟩ := List.nodup_cons.mp hn
    have h₁ := h.sync hv (hl x (.head _))
    have hne : ∀ y ∈ l, y ≠ x := fun y hy e => hx (e ▸ hy)
    have hregs₁ : (s.syncVirq cfg c x).regs cfg = s.regs cfg := h₁.regs.regs
    have h₂ := ih hn h₁.core ((congrFun h₁.regs.vcpu c).trans hv) fun y hy =>
      h₁.stay v y (hl y (.tail _ hy)) fun e => absurd (List.mem_singleton.mp e) (hne y hy)
    have hregs₂ : _ = Vgic.regs cfg _ := h₂.regs.regs
    rw [List.foldl_cons]
    refine ⟨h₂.core, h₁.regs.trans h₂.regs, h₂.guest.trans h₁.guest, ?_, ?_, ?_⟩
    · intro w y hy
      obtain ⟨hy, e₂⟩ := h₂.kept w y hy
      obtain ⟨hy, e₁⟩ := h₁.kept w y hy
      exact ⟨hy, e₂.trans e₁⟩
    · intro w y hy hstay
      have hy₁ := h₁.stay w y hy fun e => hstay (List.mem_singleton.mp e ▸ .head _)
      refine h₂.stay w y hy₁ fun hyl => ?_
      rw [hregs₁, (h₁.kept w y hy₁).2]
      exact hstay (.tail _ hyl)
    · intro y hy hm
      obtain rfl | hy := List.mem_cons.mp hy
      · obtain ⟨hm₁, e⟩ := h₂.kept v y hm
        rw [hregs₂, e]
        exact h₁.valid y (List.mem_singleton_self y) hm₁
      · exact h₂.valid y hy hm

/-- **After the sync of a CPU that has left its guest the owners are valid.** -/
theorem LrCore.syncInv (h : LrCore cfg s) (hq : ∀ w, ∀ y ∈ s.pdHead w, Belongs cfg w y) (hv : s.vcpu c = some v)
    (hvalid : ∀ w, w ≠ v → ∀ y ∈ s.lrHead w, s.Outside w → (s.regs cfg w (s.irqs y).lr).state ≠ .invalid) :
    LrInv cfg (s.syncIrqFromLrs cfg c v) := by
  have hs : Synced cfg s (s.syncIrqFromLrs cfg c v) v (s.lrHead v) :=
    LrCore.syncAll (h.apart.nodup v) h hv fun _ hx => hx
  refine ⟨hs.core, ?_, ?_⟩
  · rw [(PdSame.syncIrqFromLrs cfg s c v).pdHead]
    exact hq
  · intro w y hy ho
    obtain ⟨hy₀, e⟩ := hs.kept w y hy
    by_cases ew : w = v
    · subst ew
      exact hs.valid y hy₀ hy
    · rw [e, hs.regs.regs]
      exact hvalid w ew y hy₀ (ho.of_same hs.regs.vcpu hs.guest)

/-! ## the other steps -/

theorem LrInv.boot (h : Boot cfg s) : LrInv cfg s := by
  have hnode : ∀ x, (s.irqs x).lrNode = false ∧ (s.irqs x).lr = LR_INDEX_INVALID := by
    intro x
    cases x with
    | priv w i =>
      rw [h.priv]
      exact ⟨rfl, rfl⟩
    | spi vm i =>
      rw [h.spi]
      exact ⟨rfl, rfl⟩
  have hregs : ∀ v k, (s.regs cfg v k).state = .invalid := by
    intro v k
    rw [regs_of_saved fun c => by rw [h.vcpu]; exact nofun, h.lr]
    rfl
  refine ⟨⟨⟨fun {c v} hc => ?_, fun {c d v} hc => ?_⟩, ?_, ?_, ⟨fun v => ?_, fun {v w x} hx => ?_⟩, ?_, ?_, ?_, ?_,
    h.clash⟩, ?_, ?_⟩
  · rw [h.vcpu] at hc
    cases hc
  · rw [h.vcpu] at hc
    cases hc
  · intro v x hx
    rw [h.lrHead] at hx
    cases hx
  · intro x hx
    rw [(hnode x).1] at hx
    cases hx
  · rw [h.lrHead]
    exact List.nodup_nil
  · rw [h.lrHead] at hx
    cases hx
  · intro v x hx
    rw [h.lrHead] at hx
    cases hx
  · exact fun x => .inl (hnode x).2
  · intro v x hx
    rw [h.lrHead] at hx
    cases hx
  · exact fun v k _ hv => absurd (hregs v k) hv
  · intro v x hx
    rw [h.pdHead] at hx
    cases hx
  · intro v x hx
    rw [h.lrHead] at hx
    cases hx

/-- the guest changes a register of the CPU it runs on -/
theorem LrInv.guestLr (h : LrInv cfg s) (hg : s.guest c = true) {state : LrState}
    (hstate : state ≠ .invalid → (s.ichLr c k).state ≠ .invalid) : LrInv cfg (s.guestLr c k state) := by
  have hregs := fun w => regs_write h.loaded (show (s.guestLr c k state).vcpu = s.vcpu from rfl) rfl rfl w
  have hkeep : ∀ w j, ((s.guestLr c k state).regs cfg w j).virq = (s.regs cfg w j).virq ∧
      (((s.guestLr c k state).regs cfg w j).state ≠ .invalid → (s.regs cfg w j).state ≠ .invalid) := by
    intro w j
    rw [hregs]
    split
    · rename_i hw
      rw [regs_of_loaded h.loaded hw]
      by_cases e : j = k
      · rw [e, Function.update_self]
        exact ⟨rfl, hstate⟩
      · rw [Function.update_of_ne e]
        exact ⟨rfl, id⟩
    · exact ⟨rfl, id⟩
  refine h.owners ⟨rfl, fun _ => rfl, fun _ _ _ => rfl, h.index, fun w j => (hkeep w j).1, fun w j => (hkeep w j).2,
    rfl, rfl⟩ h.queued fun w j ho => ⟨ho, fun hv => ?_⟩
  -- the vCPU is not the one in the guest
  rw [hregs, if_neg]
  · exact hv
  · intro hc
    cases (ho c hc).symm.trans hg

theorem LrInv.switchTo (h : LrInv cfg s) (hc : c < cfg.cpus) (hout : s.guest c = false)
    (hv : ∀ d, s.vcpu d = some v → d = c) : LrInv cfg (s.vcpuSwitchTo cfg c v) := by
  obtain ⟨hirqs, hhead, hguest, hclash⟩ := vcpuSwitchTo_same cfg s c v
  have hregs : ∀ w k, k < cfg.lrNr → (s.vcpuSwitchTo cfg c v).regs cfg w k = s.regs cfg w k :=
    fun w k hk => regs_switchTo h.loaded hc hv w hk
  have houtside : ∀ w, (s.vcpuSwitchTo cfg c v).Outside w → s.Outside w := by
    intro w ho d hd
    by_cases e : d = c
    · rw [e]
      exact hout
    · rw [← hguest]
      refine ho d ?_
      rw [vcpuSwitchTo_vcpu, Function.update_of_ne e]
      exact hd
  refine ⟨⟨h.loaded.switchTo hc hv, ?_, ?_, hhead ▸ h.apart, ?_, ?_, ?_, ?_, hclash.trans h.clash⟩, ?_, ?_⟩
  · rw [hhead, hirqs]
    exact h.node
  · rw [hhead, hirqs]
    exact h.onList
  · rw [hhead]
    exact h.belongs
  · intro x
    rw [hirqs]
    exact h.index x
  · intro w x hx
    rw [hhead] at hx
    rw [hirqs]
    obtain ⟨hk, hown⟩ := h.resident w x hx
    rw [hregs w _ hk]
    exact ⟨hk, hown⟩
  · intro w k hk hvalid
    rw [hregs w k hk] at hvalid
    rw [hhead, hirqs]
    exact h.owned w k hk hvalid
  · rw [(PdSame.vcpuSwitchTo cfg s c v).pdHead]
    exact h.queued
  · intro w x hx ho
    rw [hhead] at hx
    rw [hirqs, hregs w _ (h.resident w x hx).1]
    exact h.valid w x hx (houtside w ho)

/-- the lists of a vCPU are emptied, and its registers with them -/
theorem LrInv.clear (h : LrInv cfg s) (hhead : s'.lrHead = Function.update s.lrHead v [])
    (hq : ∀ w, ∀ y ∈ s'.pdHead w, Belongs cfg w y) (hvcpu : s'.vcpu = s.vcpu) (hguest : s'.guest = s.guest)
    (hclash : s'.clash = s.clash)
    (hirqs : ∀ x, x ∉ s.lrHead v → ((s'.irqs x).lr = (s.irqs x).lr ∧ (s'.irqs x).lrNode = (s.irqs x).lrNode) ∨
      ∃ i, x = .priv v i ∧ (s'.irqs x).lr = LR_INDEX_INVALID ∧ (s'.irqs x).lrNode = false)
    (hlist : ∀ x ∈ s.lrHead v, (s'.irqs x).lrNode = false ∧
      ((s'.irqs x).lr = (s.irqs x).lr ∨ (s'.irqs x).lr = LR_INDEX_INVALID))
    (hregs : ∀ w, w ≠ v → ∀ k < cfg.lrNr, s'.regs cfg w k = s.regs cfg w k)
    (hself : ∀ k < cfg.lrNr, (s'.regs cfg v k).state = .invalid) : LrInv cfg s' := by
  have hmem : ∀ {w y}, y ∈ s'.lrHead w → w ≠ v ∧ y ∈ s.lrHead w := by
    intro w y hy
    rw [hhead] at hy
    exact mem_clear hy
  have hkeep : ∀ {w y}, w ≠ v → y ∈ s.lrHead w → (s'.irqs y).lr = (s.irqs y).lr ∧
      (s'.irqs y).lrNode = (s.irqs y).lrNode := by
    intro w y hw hy
    obtain e | ⟨i, rfl, -⟩ := hirqs y fun hv => hw (h.apart.once hy hv)
    · exact e
    · exact absurd (h.belongs w _ hy).1.symm hw
  have hold : ∀ {w y}, w ≠ v → y ∈ s.lrHead w → y ∈ s'.lrHead w := by
    intro w y hw hy
    rw [hhead, Function.update_of_ne hw]
    exact hy
  refine ⟨⟨h.loaded.of_vcpu hvcpu, ?_, ?_, hhead ▸ h.apart.clear v, ?_, ?_, ?_, ?_, hclash.trans h.clash⟩, hq, ?_⟩
  · intro w y hy
    obtain ⟨hw, hy⟩ := hmem hy
    rw [(hkeep hw hy).2]
    exact h.node w y hy
  · intro y hy
    by_cases hyv : y ∈ s.lrHead v
    · cases (hlist y hyv).1.symm.trans hy
    · obtain ⟨-, e⟩ | ⟨i, -, -, e⟩ := hirqs y hyv
      · rw [e] at hy
        obtain ⟨w, hw⟩ := h.onList y hy
        exact ⟨w, hold (fun e' => hyv (e' ▸ hw)) hw⟩
      · cases e.symm.trans hy
  · intro w y hy
    exact h.belongs w y (hmem hy).2
  · intro y
    have hi : (s'.irqs y).lr = (s.irqs y).lr ∨ (s'.irqs y).lr = LR_INDEX_INVALID := by
      by_cases hyv : y ∈ s.lrHead v
      · exact (hlist y hyv).2
      · exact (hirqs y hyv).imp (fun e => e.1) fun ⟨_, _, e, _⟩ => e
    obtain e | e := hi
    · rw [e]
      exact h.index y
    · exact .inl e
  · intro w y hy
    obtain ⟨hw, hy⟩ := hmem hy
    obtain ⟨hk, hown⟩ := h.resident w y hy
    rw [(hkeep hw hy).1, hregs w hw _ hk]
    exact ⟨hk, hown⟩
  · intro w k hk hvalid
    have hw : w ≠ v := by
      rintro rfl
      exact hvalid (hself k hk)
    rw [hregs w hw k hk] at hvalid
    obtain ⟨y, hy, e⟩ := h.owned w k hk hvalid
    exact ⟨y, hold hw hy, (hkeep hw hy).1.trans e⟩
  · intro w y hy ho
    obtain ⟨hw, hy⟩ := hmem hy
    rw [(hkeep hw hy).1, hregs w hw _ (h.resident w y hy).1]
    exact h.valid w y hy (ho.of_same hvcpu hguest)

/-! ## power-off and start -/

/-- the registers of the other vCPUs, after the clean-up on the vCPU's own CPU or on one whose registers are free -/
theorem regs_irqCleanup_other (h : LrCore cfg s)
    (hg : s.vcpu c = some v ∨ s.lrHead v = [] ∧ ∀ w, s.vcpu c = some w → ∀ k < cfg.lrNr, s.ichLr c k = GicLr.zero)
    (hw : w ≠ v) (hk : k < cfg.lrNr) : (s.irqCleanup cfg c v).regs cfg w k = s.regs cfg w k := by
  rw [regs_irqCleanup h.loaded w hk]
  split
  · rename_i hc
    obtain hg | ⟨-, hfree⟩ := hg
    · exact absurd (Option.some.inj (hc.symm.trans hg)) hw
    · rw [regs_of_loaded h.loaded hc, hfree w hc k hk]
  · rfl

/-- the registers of a vCPU with an empty list are free -/
theorem LrCore.free_of_nil (h : LrCore cfg s) (hv : s.lrHead v = []) (hk : k < cfg.lrNr) :
    (s.regs cfg v k).state = .invalid := by
  by_contra hvalid
  obtain ⟨x, hx, -⟩ := h.owned v k hk hvalid
  rw [hv] at hx
  cases hx

theorem LrInv.poweroff (h : LrInv cfg s) (hg : s.status v ≠ .shutdown → s.status v ≠ .created →
      s.vcpu c = some v ∨ s.lrHead v = [] ∧ ∀ w, s.vcpu c = some w → ∀ k < cfg.lrNr, s.ichLr c k = GicLr.zero) :
    LrInv cfg (s.vcpuPoweroff cfg c v) := by
  unfold vcpuPoweroff
  split
  · exact h
  rename_i hst
  obtain ⟨hshut, hcreated⟩ := not_or.mp hst
  have hg := hg hshut hcreated
  refine h.clear (v := v) rfl (fun w y hy => h.queued w y (mem_clear hy).2) rfl rfl rfl ?_ ?_ ?_ ?_
  · intro x hx
    exact .inl ⟨rfl, if_neg hx⟩
  · intro x hx
    exact ⟨if_pos hx, .inl rfl⟩
  · intro w hw k hk
    exact regs_irqCleanup_other h.toLrCore hg hw hk
  · intro k hk
    show ((s.irqCleanup cfg c v).regs cfg v k).state = _
    rw [regs_irqCleanup h.loaded v hk]
    split
    · rfl
    · rename_i hc
      exact h.toLrCore.free_of_nil (hg.resolve_left hc).1 hk

theorem LrInv.irqInit (h : LrInv cfg s)
    (hg : s.lrHead v = [] ∨ (∀ d, s.vcpu d ≠ some v) ∧ ∀ x ∈ s.lrHead v, ∃ i, x = .priv v i) :
    LrInv cfg { s.irqInit v with starting := Function.update s.starting v false } := by
  have hregs := regs_saved h.loaded
    (show ({ s.irqInit v with starting := Function.update s.starting v false } : Vgic).vcpu = s.vcpu from rfl)
    (show _ = Function.update s.lr v fun _ => GicLr.zero from rfl) rfl
  refine h.clear (v := v) rfl (fun w y hy => h.queued w y (mem_clear hy).2) rfl rfl rfl ?_ ?_ ?_ ?_
  · intro x _
    cases x with
    | priv w i =>
      rw [show ({ s.irqInit v with starting := Function.update s.starting v false } : Vgic).irqs = (s.irqInit v).irqs
        from rfl, irqInit_priv]
      by_cases e : w = v
      · rw [if_pos e, e]
        exact .inr ⟨i, rfl, rfl, rfl⟩
      · rw [if_neg e]
        exact .inl ⟨rfl, rfl⟩
    | spi vm i => exact .inl ⟨rfl, rfl⟩
  · intro x hx
    obtain hnil | ⟨-, hpriv⟩ := hg
    · rw [hnil] at hx
      cases hx
    · obtain ⟨i, rfl⟩ := hpriv x hx
      rw [show ({ s.irqInit v with starting := Function.update s.starting v false } : Vgic).irqs = (s.irqInit v).irqs
        from rfl, irqInit_priv, if_pos rfl]
      exact ⟨rfl, .inr rfl⟩
  · intro w hw k _
    rw [hregs.1 w hw]
  · intro k hk
    obtain ⟨⟨d, hd⟩, e⟩ | e := hregs.2
    · rw [e]
      obtain hnil | ⟨hsaved, -⟩ := hg
      · exact h.toLrCore.free_of_nil hnil hk
      · exact absurd hd (hsaved d)
    · rw [e]
      rfl

/-! ## every step -/

/-- the guests of the CPUs come and go -/
theorem LrCore.ofGuest (h : LrCore cfg s) (guest : Nat → Bool) : LrCore cfg { s with guest := guest } :=
  h.owners ⟨rfl, fun _ => rfl, fun _ _ _ => rfl, h.index, fun _ _ => rfl, fun _ _ => id, rfl, rfl⟩

theorem LrInv.enter (h : LrInv cfg s) (hout : s.guest c = false) :
    LrInv cfg { s with guest := Function.update s.guest c true } := by
  refine ⟨h.toLrCore.ofGuest _, h.queued, fun v x hx ho => h.valid v x hx fun d hd => ?_⟩
  by_cases e : d = c
  · rw [e]
    exact hout
  · have hd := ho d hd
    change Function.update s.guest c true d = false at hd
    rw [Function.update_of_ne e] at hd
    exact hd

theorem LrInv.exit (h : LrInv cfg s) (hv : s.vcpu c = some v) :
    LrInv cfg (syncIrqFromLrs cfg { s with guest := Function.update s.guest c false } c v) := by
  refine (h.toLrCore.ofGuest _).syncInv h.queued hv fun w hw y hy ho => h.valid w y hy fun d hd => ?_
  have hdc : d ≠ c := by
    rintro rfl
    exact hw (Option.some.inj (hd.symm.trans hv))
  have hd := ho d hd
  change Function.update s.guest c false d = false at hd
  rw [Function.update_of_ne hdc] at hd
  exact hd

theorem LrInv.step (h : LrInv cfg s) (hq : QueueWf s) {op : VgicOp} (hg : LrGuard cfg s op)
    (hs : vgicStep cfg s op = some s') : LrInv cfg s' := by
  by_cases ho : op.lrs = false
  · exact h.same (.step hs ho) (queued_step hq h.queued hg hs)
  cases op <;> simp only [VgicOp.lrs, not_true, Bool.true_eq_false, not_false_eq_true] at ho <;>
    simp only [vgicStep] at hs
  case flush c =>
    split at hs
    · cases hs
    · rename_i hout
      obtain ⟨v, hv, rfl⟩ := Option.map_eq_some_iff.mp hs
      exact h.flushLoop (h.queued v) (hq.apart.nodup v) hv (Bool.not_eq_true _ ▸ hout) (hg v hv)
  case sync c =>
    split at hs
    · cases hs
    · obtain ⟨v, hv, rfl⟩ := Option.map_eq_some_iff.mp hs
      exact h.toLrCore.syncInv h.queued hv fun w _ y hy => h.valid w y hy
  case switchTo c v =>
    split at hs
    · rename_i hc
      cases hs
      exact h.switchTo hc.2 hc.1 hg
    · cases hs
  case enter c =>
    split at hs
    · rename_i hc
      cases hs
      exact h.enter hc.1
    · cases hs
  case exit c =>
    split at hs
    · obtain ⟨v, hv, rfl⟩ := Option.map_eq_some_iff.mp hs
      exact h.exit hv
    · cases hs
  case ack c k =>
    split at hs
    · rename_i hc
      cases hs
      refine h.guestLr hc.1 fun _ => ?_
      rw [hc.2.2]
      decide
    · cases hs
  case eoi c k =>
    split at hs
    · rename_i hc
      split at hs
      · cases hs
        exact h.guestLr hc.1 fun hne => absurd rfl hne
      · rename_i hstate
        cases hs
        refine h.guestLr hc.1 fun _ => ?_
        rw [hstate]
        decide
      · cases hs
    · cases hs
  case poweroff c v =>
    split at hs
    · cases hs
      exact h.poweroff hg
    · cases hs
  case irqInit v =>
    split at hs
    · cases hs
      exact h.irqInit hg
    · cases hs

end

end Vgic
end LkHv
