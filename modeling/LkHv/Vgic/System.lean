import LkHv.Lib.Machine
import LkHv.Vgic.Irq

/-!
# Runs of the virtual interrupt controller

* `VgicOp`, `vgicStep`, `vgicSys`   the machine: calls of the functions of `hv_vgic.c` on any CPU, the
                                    switch, power-off and start of vCPUs, and what the guests do to the
                                    list registers;
* `PdSame`, `LrSame`                steps that leave the pending lists, or the list registers, alone;
* `Unqueued`, `Queued`              an interrupt taken off the pending lists, or put on one;
* `QueueWf`, `queueWf`              the nodes and flags of the lists, in every reachable state;
-/

namespace LkHv
namespace Vgic

/-! ## the machine -/

inductive VgicOp where
  /-- `hv_inject_virq` on the CPU `c` -/
  | inject (c vm : Nat) (vcpu : Option VcpuId) (virq : Nat)
  /-- `hv_virq_enable` -/
  | enable (x : VirqId) (enable : Bool)
  /-- `hv_virq_cpending` -/
  | cpending (x : VirqId)
  /-- the entry of `ipriority_write` -/
  | priority (x : VirqId) (value : Nat)
  /-- the entry of `igroupr_write` -/
  | group (x : VirqId) (group : Bool)
  /-- `irouter_write` by the vCPU `v` -/
  | irouter (c : Nat) (v : VcpuId) (index value : Nat)
  /-- `hv_virq_to_lrs` -/
  | flush (c : Nat)
  /-- `hv_virq_from_lrs` -/
  | sync (c : Nat)
  /-- `vcpu_switch_to` -/
  | switchTo (c : Nat) (v : VcpuId)
  /-- the CPU enters the guest -/
  | enter (c : Nat)
  /-- the CPU leaves the guest, which calls `hv_virq_from_lrs` -/
  | exit (c : Nat)
  /-- the guest acknowledges the interrupt in a list register -/
  | ack (c k : Nat)
  /-- the guest deactivates the interrupt in a list register -/
  | eoi (c k : Nat)
  /-- `hv_vcpu_poweroff` on the vCPU's own CPU -/
  | poweroff (c : Nat) (v : VcpuId)
  /-- `hv_vcpu_start` -/
  | start (v : VcpuId)
  /-- `hv_vcpu_irq_init`, by the thread that was started -/
  | irqInit (v : VcpuId)
  /-- the status of `hv_vcpu_stop` -/
  | stop (v : VcpuId)
  /-- the status of `hv_vcpu_resume` -/
  | resume (v : VcpuId)
  /-- the scheduler moves the thread of a vCPU -/
  | place (v : VcpuId) (c : Option Nat)

/-- a list register of the CPU `c` changed by the guest -/
def guestLr (s : Vgic) (c k : Nat) (state : LrState) : Vgic :=
  { s with ichLr := Function.update s.ichLr c (Function.update (s.ichLr c) k { s.ichLr c k with state := state }) }

@[local grind =] def vgicStep (cfg : VgicConfig) (s : Vgic) : VgicOp → Option Vgic
  | .inject c vm vcpu virq => (s.injectVirq cfg c vm vcpu virq).map Prod.fst
  | .enable x enable => some (s.virqEnable x enable)
  | .cpending x => some (s.virqCpending x)
  | .priority x value => some (s.setIrq x fun r => { r with priority := ipriority value })
  | .group x group => some (s.setIrq x fun r => { r with group := group })
  | .irouter c v index value => s.irouterWrite cfg c v index value
  | .flush c =>
    if s.guest c then none else (s.vcpu c).map fun v => s.flushQueuedVirqs cfg c v
  | .sync c =>
    if s.guest c then none else (s.vcpu c).map fun v => s.syncIrqFromLrs cfg c v
  | .switchTo c v =>
    if s.guest c = false ∧ c < cfg.cpus then some (s.vcpuSwitchTo cfg c v) else none
  | .enter c =>
    if s.guest c = false ∧ s.vcpu c ≠ none then some { s with guest := Function.update s.guest c true }
    else none
  | .exit c =>
    if s.guest c then
      (s.vcpu c).map fun v => syncIrqFromLrs cfg { s with guest := Function.update s.guest c false } c v
    else none
  | .ack c k =>
    if s.guest c ∧ k < 16 ∧ (s.ichLr c k).state = .pending then some (s.guestLr c k .active) else none
  | .eoi c k =>
    if s.guest c ∧ k < 16 then
      match (s.ichLr c k).state with
      | .active => some (s.guestLr c k .invalid)
      | .actPend => some (s.guestLr c k .pending)
      | _ => none
    else none
  | .poweroff c v =>
    if s.guest c = false ∧ s.cpuId v = some c then some (s.vcpuPoweroff cfg c v) else none
  | .start v =>
    if s.status v = .created ∨ s.status v = .shutdown then
      some { s with status := Function.update s.status v .ready
                    starting := Function.update s.starting v true }
    else none
  | .irqInit v =>
    if s.starting v then some { s.irqInit v with starting := Function.update s.starting v false } else none
  | .stop v => some { s with status := Function.update s.status v .blocked }
  | .resume v => some (s.vcpuResume v)
  | .place v c => some { s with cpuId := Function.update s.cpuId v c }

/-- after `hv_vm_irq_init`, `hv_vcpu_irq_init` and the mapping of the SPIs of every VM -/
structure Boot (cfg : VgicConfig) (s : Vgic) : Prop where
  priv : ∀ v i, s.irqs (.priv v i) = initVirq
  spi : ∀ vm i, s.irqs (.spi vm i)
    = { initVirq with vcpu := (cfg.spiMap vm i).map fun _ => ⟨vm, 0⟩ }
  pdHead : ∀ v, s.pdHead v = []
  lrHead : ∀ v, s.lrHead v = []
  lr : ∀ v k, s.lr v k = GicLr.zero
  vcpu : ∀ c, s.vcpu c = none
  guest : ∀ c, s.guest c = false
  clash : s.clash = false

def vgicSys (cfg : VgicConfig) : Machine Vgic VgicOp := .ofFun (Boot cfg) (vgicStep cfg)

/-! ## what steps leave alone -/

/-- the pending lists, their flags and the interrupts' vCPUs are as before -/
structure PdSame (s s' : Vgic) : Prop where
  pdHead : s'.pdHead = s.pdHead
  pdq : ∀ x, (s'.irqs x).pdq = (s.irqs x).pdq
  pdNode : ∀ x, (s'.irqs x).pdNode = (s.irqs x).pdNode
  vcpu : ∀ x, (s'.irqs x).vcpu = (s.irqs x).vcpu

/-- the list registers and their records are as before -/
structure LrSame (s s' : Vgic) : Prop where
  lrHead : s'.lrHead = s.lrHead
  index : ∀ x, (s'.irqs x).lr = (s.irqs x).lr
  lr : s'.lr = s.lr
  ichLr : s'.ichLr = s.ichLr
  vcpu : s'.vcpu = s.vcpu
  guest : s'.guest = s.guest
  clash : s'.clash = s.clash

section
variable {s s' s'' : Vgic} {x y : VirqId} {f : VgicIrq → VgicIrq}

theorem setIrq_field {α : Type} (g : VgicIrq → α) (h : ∀ r, g (f r) = g r) (y : VirqId) :
    g ((s.setIrq x f).irqs y) = g (s.irqs y) := by
  rw [setIrq_irqs]
  split
  · rename_i e
    rw [h, e]
  · rfl

theorem PdSame.refl (s : Vgic) : PdSame s s := ⟨rfl, fun _ => rfl, fun _ => rfl, fun _ => rfl⟩

theorem PdSame.trans (h : PdSame s s') (h' : PdSame s' s'') : PdSame s s'' :=
  ⟨h'.pdHead.trans h.pdHead, fun x => (h'.pdq x).trans (h.pdq x),
    fun x => (h'.pdNode x).trans (h.pdNode x), fun x => (h'.vcpu x).trans (h.vcpu x)⟩

theorem PdSame.setIrq (s : Vgic) (x : VirqId)
    (h : ∀ r, (f r).pdq = r.pdq ∧ (f r).pdNode = r.pdNode ∧ (f r).vcpu = r.vcpu) : PdSame s (s.setIrq x f) :=
  ⟨rfl, setIrq_field VgicIrq.pdq fun r => (h r).1, setIrq_field VgicIrq.pdNode fun r => (h r).2.1,
    setIrq_field VgicIrq.vcpu fun r => (h r).2.2⟩

theorem LrSame.refl (s : Vgic) : LrSame s s := ⟨rfl, fun _ => rfl, rfl, rfl, rfl, rfl, rfl⟩

theorem LrSame.trans (h : LrSame s s') (h' : LrSame s' s'') : LrSame s s'' :=
  ⟨h'.lrHead.trans h.lrHead, fun x => (h'.index x).trans (h.index x), h'.lr.trans h.lr,
    h'.ichLr.trans h.ichLr, h'.vcpu.trans h.vcpu, h'.guest.trans h.guest, h'.clash.trans h.clash⟩

theorem LrSame.setIrq (s : Vgic) (x : VirqId) (h : ∀ r, (f r).lr = r.lr) : LrSame s (s.setIrq x f) :=
  ⟨rfl, setIrq_field VgicIrq.lr h, rfl, rfl, rfl, rfl, rfl⟩

theorem LrSame.unlinkPd (s : Vgic) (x : VirqId) : LrSame s (s.unlinkPd x) :=
  ⟨rfl, setIrq_field (s := s) (x := x) (f := fun r => { r with pdNode := false }) VgicIrq.lr fun _ => rfl,
    rfl, rfl, rfl, rfl, rfl⟩

theorem PdSame.unlinkLr (s : Vgic) (x : VirqId) : PdSame s (s.unlinkLr x) := by
  have h := PdSame.setIrq s x (f := fun r => { r with lrNode := false }) fun _ => ⟨rfl, rfl, rfl⟩
  exact ⟨rfl, h.pdq, h.pdNode, h.vcpu⟩

theorem PdSame.freeVirq (s : Vgic) (x : VirqId) : PdSame s (s.freeVirq x) := by
  refine .trans ?_ (.unlinkLr _ x)
  exact .setIrq s x fun _ => by exact ⟨rfl, rfl, rfl⟩

theorem PdSame.lrWrite (cfg : VgicConfig) (s : Vgic) (c : Nat) (x : VirqId) (k : Nat) (val : GicLr) :
    PdSame s (s.lrWrite cfg c x k val) := by
  rw [Vgic.lrWrite]
  split
  · exact ⟨rfl, fun _ => rfl, fun _ => rfl, fun _ => rfl⟩
  · exact .refl s

theorem PdSame.vgicWriteLr (cfg : VgicConfig) (s : Vgic) (c : Nat) (x : VirqId) : PdSame s (s.vgicWriteLr cfg c x) :=
  .lrWrite cfg s c x _ _

theorem PdSame.vgicUpdateLr (cfg : VgicConfig) (s : Vgic) (c : Nat) (x : VirqId) :
    PdSame s (s.vgicUpdateLr cfg c x) := by
  rw [Vgic.vgicUpdateLr]
  split
  · exact .lrWrite cfg s c x _ _
  · exact .refl s

theorem PdSame.syncVirq (cfg : VgicConfig) (c : Nat) (s : Vgic) (x : VirqId) : PdSame s (s.syncVirq cfg c x) := by
  unfold Vgic.syncVirq
  split
  · exact .refl s
  · simp only
    split
    · exact .freeVirq s x
    · split
      · exact .freeVirq s x
      all_goals exact .setIrq s x fun _ => by exact ⟨rfl, rfl, rfl⟩

theorem PdSame.foldl {g : Vgic → VirqId → Vgic} (hg : ∀ s x, PdSame s (g s x)) :
    ∀ (xs : List VirqId) (s : Vgic), PdSame s (xs.foldl g s) := by
  intro xs
  induction xs with
  | nil => exact fun s => .refl s
  | cons x xs ih => exact fun s => (hg s x).trans (ih _)

theorem PdSame.syncIrqFromLrs (cfg : VgicConfig) (s : Vgic) (c : Nat) (v : VcpuId) :
    PdSame s (s.syncIrqFromLrs cfg c v) :=
  .foldl (fun s x => .syncVirq cfg c s x) _ s

theorem PdSame.vcpuSwitchTo (cfg : VgicConfig) (s : Vgic) (c : Nat) (v : VcpuId) :
    PdSame s (s.vcpuSwitchTo cfg c v) := by
  rw [Vgic.vcpuSwitchTo]
  split
  · exact .refl s
  · cases s.vcpu c <;> exact ⟨rfl, fun _ => rfl, fun _ => rfl, fun _ => rfl⟩

theorem LrSame.linkPd (s : Vgic) (x : VirqId) (v : VcpuId) (l : List VirqId) : LrSame s (s.linkPd x v l) := by
  have h := LrSame.setIrq s x (f := fun r => { r with pdNode := true }) fun _ => rfl
  exact ⟨rfl, h.index, rfl, rfl, rfl, rfl, rfl⟩

theorem LrSame.insertIntoPdlist (s : Vgic) (x : VirqId) (v : VcpuId) : LrSame s (s.insertIntoPdlist x v) := by
  unfold Vgic.insertIntoPdlist
  split
  · exact .refl s
  · have h := LrSame.setIrq s x (f := fun r => { r with pdq := true }) fun _ => rfl
    simp only
    split
    · exact h.trans (.linkPd _ x v _)
    · split
      · exact h.trans (.linkPd _ x v _)
      · exact h

theorem vcpuResume_same (s : Vgic) (v : VcpuId) : PdSame s (s.vcpuResume v) ∧ LrSame s (s.vcpuResume v) := by
  rw [vcpuResume]
  split
  · exact ⟨⟨rfl, fun _ => rfl, fun _ => rfl, fun _ => rfl⟩, ⟨rfl, fun _ => rfl, rfl, rfl, rfl, rfl, rfl⟩⟩
  · exact ⟨.refl s, .refl s⟩

/-- what `hv_vcpu_inject_virq` does: nothing, or the insertion -/
theorem vcpuInjectVirq_cases (s : Vgic) (c : Nat) (v : VcpuId) (x : VirqId) :
    (PdSame s (s.vcpuInjectVirq c v x).1 ∧ LrSame s (s.vcpuInjectVirq c v x).1 ∧
      ((s.vcpuInjectVirq c v x).2 = 0 → (s.irqs x).pdq = true)) ∨
    ((s.irqs x).enable = true ∧ s.status v ≠ .shutdown ∧ (s.irqs x).pdq = false ∧
      PdSame (s.insertIntoPdlist x v) (s.vcpuInjectVirq c v x).1 ∧ LrSame s (s.vcpuInjectVirq c v x).1) := by
  have hl := LrSame.insertIntoPdlist s x v
  unfold vcpuInjectVirq
  split
  · exact .inl ⟨.refl s, .refl s, fun h => by cases h⟩
  rename_i he
  split
  · exact .inl ⟨.refl s, .refl s, fun h => by cases h⟩
  rename_i hs
  split
  · rename_i hq
    exact .inl ⟨.refl s, .refl s, fun _ => hq⟩
  rename_i hq
  refine .inr ⟨by simpa using he, hs, by simpa using hq, ?_⟩
  simp only
  split
  · split <;> exact ⟨.refl _, hl⟩
  · split
    · obtain ⟨h1, h2⟩ := vcpuResume_same (s.insertIntoPdlist x v) v
      exact ⟨h1, hl.trans h2⟩
    · exact ⟨.refl _, hl⟩

theorem LrSame.vcpuInjectVirq (s : Vgic) (c : Nat) (v : VcpuId) (x : VirqId) :
    LrSame s (s.vcpuInjectVirq c v x).1 := by
  rcases vcpuInjectVirq_cases s c v x with ⟨-, h, -⟩ | ⟨-, -, -, -, h⟩ <;> exact h

theorem LrSame.virqCpending (s : Vgic) (x : VirqId) : LrSame s (s.virqCpending x) := by
  unfold Vgic.virqCpending
  simp only
  split
  · refine .trans (.trans ?_ (.unlinkPd _ x)) (.setIrq _ x fun _ => by rfl)
    exact .setIrq s x fun _ => by rfl
  · exact .setIrq s x fun _ => by rfl

theorem LrSame.virqEnable (s : Vgic) (x : VirqId) (enable : Bool) : LrSame s (s.virqEnable x enable) := by
  unfold Vgic.virqEnable
  simp only
  split
  · exact .setIrq s x fun _ => by rfl
  · refine .trans ?_ (.virqCpending _ x)
    exact .setIrq s x fun _ => by rfl

theorem LrSame.requeued (s : Vgic) (n : VcpuId) (x : VirqId) : LrSame s (s.requeued n x) := by
  refine .trans (.trans ?_ (.unlinkPd _ x)) (.setIrq _ x fun _ => by rfl)
  exact .setIrq s x fun _ => by rfl

theorem LrSame.migrateVirq (cfg : VgicConfig) (s : Vgic) (c : Nat) (n : VcpuId) (x : VirqId) :
    LrSame s (s.migrateVirq cfg c n x).1 := by
  unfold Vgic.migrateVirq
  split
  · dsimp only
    exact .setIrq s x fun _ => by rfl
  split
  · exact .refl s
  split
  · dsimp only
    exact .setIrq s x fun _ => by rfl
  split
  · dsimp only
    exact .setIrq s x fun _ => by rfl
  split
  · exact (LrSame.requeued s n x).trans (.vcpuInjectVirq _ c n x)
  · exact .refl s

theorem LrSame.irouterWrite (cfg : VgicConfig) {c : Nat} {v : VcpuId} {index value : Nat}
    (h : s.irouterWrite cfg c v index value = some s') : LrSame s s' := by
  unfold Vgic.irouterWrite at h
  split at h
  · cases h
    exact .refl s
  · rename_i x n _
    split at h
    · cases h
    · cases h
      have hm := LrSame.migrateVirq cfg s c n x
      split
      · exact hm.trans (.setIrq _ x fun _ => by rfl)
      · exact hm

theorem PdSame.moved (s : Vgic) (v : VcpuId) (x : VirqId) :
    PdSame ((s.unlinkPd x).setIrq x fun r => { r with pdq := false }) (s.moveToLrLst v x) := by
  unfold moveToLrLst
  simp only
  split
  · exact .refl _
  · have h := PdSame.setIrq ((s.unlinkPd x).setIrq x fun r => { r with pdq := false }) x
      (f := fun r => { r with lrNode := true }) fun _ => ⟨rfl, rfl, rfl⟩
    exact ⟨rfl, h.pdq, h.pdNode, h.vcpu⟩

end

/-! ## on and off the pending lists -/

/-- `x` is taken off the pending lists -/
structure Unqueued (s s' : Vgic) (x : VirqId) : Prop where
  pdHead : s'.pdHead = Links.unlink s.pdHead x
  self : (s'.irqs x).pdq = false ∧ (s'.irqs x).pdNode = false
  other : ∀ y, y ≠ x → (s'.irqs y).pdq = (s.irqs y).pdq ∧ (s'.irqs y).pdNode = (s.irqs y).pdNode
  vcpu : ∀ y, (s'.irqs y).vcpu = (s.irqs y).vcpu

/-- `x` is put on the pending list of `v` -/
structure Queued (s s' : Vgic) (x : VirqId) (v : VcpuId) : Prop where
  pdHead : ∃ l, l.Perm (x :: s.pdHead v) ∧ s'.pdHead = Function.update s.pdHead v l
  self : (s'.irqs x).pdq = true ∧ (s'.irqs x).pdNode = true
  other : ∀ y, y ≠ x → (s'.irqs y).pdq = (s.irqs y).pdq ∧ (s'.irqs y).pdNode = (s.irqs y).pdNode
  vcpu : ∀ y, (s'.irqs y).vcpu = (s.irqs y).vcpu

/-- only the flag of `x` is set -/
structure Marked (s s' : Vgic) (x : VirqId) : Prop where
  pdHead : s'.pdHead = s.pdHead
  self : (s'.irqs x).pdq = true
  pdq : ∀ y, y ≠ x → (s'.irqs y).pdq = (s.irqs y).pdq
  pdNode : ∀ y, (s'.irqs y).pdNode = (s.irqs y).pdNode
  vcpu : ∀ y, (s'.irqs y).vcpu = (s.irqs y).vcpu

/-- `insert_into_pdlist` finds a place for `x` on the pending list of `v` -/
def RoomFor (s : Vgic) (v : VcpuId) (x : VirqId) : Prop :=
  s.pdHead v = [] ∨ ∃ t ∈ s.pdHead v, (s.irqs t).priority < (s.irqs x).priority

section
variable {s s' s'' : Vgic} {x : VirqId} {v : VcpuId}

theorem Unqueued.same (h : Unqueued s s' x) (h' : PdSame s' s'') : Unqueued s s'' x :=
  ⟨h'.pdHead.trans h.pdHead, ⟨(h'.pdq x).trans h.self.1, (h'.pdNode x).trans h.self.2⟩,
    fun y hy => ⟨(h'.pdq y).trans (h.other y hy).1, (h'.pdNode y).trans (h.other y hy).2⟩,
    fun y => (h'.vcpu y).trans (h.vcpu y)⟩

theorem Unqueued.after (h : PdSame s s') (h' : Unqueued s' s'' x) : Unqueued s s'' x :=
  ⟨h'.pdHead.trans (by rw [h.pdHead]), h'.self,
    fun y hy => ⟨(h'.other y hy).1.trans (h.pdq y), (h'.other y hy).2.trans (h.pdNode y)⟩,
    fun y => (h'.vcpu y).trans (h.vcpu y)⟩

theorem Queued.same (h : Queued s s' x v) (h' : PdSame s' s'') : Queued s s'' x v := by
  obtain ⟨l, hl, he⟩ := h.pdHead
  exact ⟨⟨l, hl, h'.pdHead.trans he⟩, ⟨(h'.pdq x).trans h.self.1, (h'.pdNode x).trans h.self.2⟩,
    fun y hy => ⟨(h'.pdq y).trans (h.other y hy).1, (h'.pdNode y).trans (h.other y hy).2⟩,
    fun y => (h'.vcpu y).trans (h.vcpu y)⟩

theorem Marked.same (h : Marked s s' x) (h' : PdSame s' s'') : Marked s s'' x :=
  ⟨h'.pdHead.trans h.pdHead, (h'.pdq x).trans h.self, fun y hy => (h'.pdq y).trans (h.pdq y hy),
    fun y => (h'.pdNode y).trans (h.pdNode y), fun y => (h'.vcpu y).trans (h.vcpu y)⟩

/-- `pd_node` unlinked and `pdq` cleared, as three functions do -/
theorem unqueue (s : Vgic) (x : VirqId) :
    Unqueued s ((s.unlinkPd x).setIrq x fun r => { r with pdq := false }) x := by
  refine ⟨rfl, ?_, fun y hy => ?_, fun y => ?_⟩
  · rw [setIrq_self, unlinkPd_irqs, setIrq_self]
    exact ⟨rfl, rfl⟩
  · rw [setIrq_of_ne _ _ hy, unlinkPd_irqs, setIrq_of_ne _ _ hy]
    exact ⟨rfl, rfl⟩
  · rw [setIrq_field VgicIrq.vcpu fun _ => by rfl, unlinkPd_irqs]
    exact setIrq_field VgicIrq.vcpu (fun _ => by rfl) y

theorem unqueued_moveToLrLst (s : Vgic) (v : VcpuId) (x : VirqId) : Unqueued s (s.moveToLrLst v x) x :=
  (unqueue s x).same (.moved s v x)

theorem unqueued_requeued (s : Vgic) (n : VcpuId) (x : VirqId) :
    Unqueued (s.setIrq x fun r => { r with vcpu := some n }) (s.requeued n x) x :=
  unqueue _ x

theorem queued_linkPd (s : Vgic) {v : VcpuId} {l : List VirqId} (hl : l.Perm (x :: s.pdHead v)) :
    Queued s ((s.setIrq x fun r => { r with pdq := true }).linkPd x v l) x v := by
  refine ⟨⟨l, hl, rfl⟩, ?_, fun y hy => ?_, fun y => ?_⟩
  · rw [linkPd_irqs, setIrq_self, setIrq_self]
    exact ⟨rfl, rfl⟩
  · rw [linkPd_irqs, setIrq_of_ne _ _ hy, setIrq_of_ne _ _ hy]
    exact ⟨rfl, rfl⟩
  · rw [linkPd_irqs, setIrq_field VgicIrq.vcpu fun _ => by rfl]
    exact setIrq_field VgicIrq.vcpu (fun _ => by rfl) y

/-- **`insert_into_pdlist`.** -/
theorem insertIntoPdlist_cases (s : Vgic) (x : VirqId) (v : VcpuId) :
    ((s.irqs x).pdNode = true ∧ s.insertIntoPdlist x v = s) ∨
    ((s.irqs x).pdNode = false ∧ s.RoomFor v x ∧ Queued s (s.insertIntoPdlist x v) x v) ∨
    ((s.irqs x).pdNode = false ∧ ¬ s.RoomFor v x ∧ Marked s (s.insertIntoPdlist x v) x) := by
  unfold insertIntoPdlist
  split
  · rename_i hn
    exact .inl ⟨hn, rfl⟩
  rename_i hn
  have hn' : (s.irqs x).pdNode = false := by simpa using hn
  simp only
  split
  · rename_i he
    refine .inr (.inl ⟨hn', .inl he, queued_linkPd s ?_⟩)
    rw [show s.pdHead v = [] from he]
  rename_i he
  split
  · rename_i hb
    exact .inr (.inl ⟨hn', .inr hb, queued_linkPd s (Links.insertBefore_perm x (by simpa using hb))⟩)
  · rename_i hb
    refine .inr (.inr ⟨hn', not_or.mpr ⟨he, hb⟩, rfl, by rw [setIrq_self], fun y hy => by
      rw [setIrq_of_ne _ _ hy], fun y => setIrq_field VgicIrq.pdNode (fun _ => by rfl) y,
      fun y => setIrq_field VgicIrq.vcpu (fun _ => by rfl) y⟩)

end

/-! ## the queues in every reachable state -/

/-- the links and flags of the pending lists -/
structure QueueWf (s : Vgic) : Prop where
  node : ∀ v, ∀ x ∈ s.pdHead v, (s.irqs x).pdNode = true
  pdq : ∀ x, (s.irqs x).pdNode = true → (s.irqs x).pdq = true
  apart : Links.Apart s.pdHead
  own : ∀ v w i, .priv w i ∈ s.pdHead v → w = v
  privVcpu : ∀ w i, i ≠ 0 → (s.irqs (.priv w i)).vcpu = none

section
variable {cfg : VgicConfig} {s s' : Vgic} {x : VirqId} {v : VcpuId}

theorem QueueWf.free (h : QueueWf s) (hx : (s.irqs x).pdNode = false) (v : VcpuId) : x ∉ s.pdHead v := by
  intro hm
  rw [h.node v x hm] at hx
  cases hx

theorem QueueWf.same (h : QueueWf s) (h' : PdSame s s') : QueueWf s' where
  node v x hx := by
    rw [h'.pdHead] at hx
    rw [h'.pdNode]
    exact h.node v x hx
  pdq x hx := by
    rw [h'.pdNode] at hx
    rw [h'.pdq]
    exact h.pdq x hx
  apart := by
    rw [h'.pdHead]
    exact h.apart
  own v w i hx := by
    rw [h'.pdHead] at hx
    exact h.own v w i hx
  privVcpu w i hi := by
    rw [h'.vcpu]
    exact h.privVcpu w i hi

theorem QueueWf.unqueued (h : QueueWf s) (h' : Unqueued s s' x) : QueueWf s' where
  node v y hy := by
    rw [h'.pdHead, Links.mem_unlink] at hy
    rw [(h'.other y hy.2).2]
    exact h.node v y hy.1
  pdq y hy := by
    by_cases e : y = x
    · subst e
      rw [h'.self.2] at hy
      cases hy
    · rw [(h'.other y e).2] at hy
      rw [(h'.other y e).1]
      exact h.pdq y hy
  apart := by
    rw [h'.pdHead]
    exact h.apart.unlink x
  own v w i hx := by
    rw [h'.pdHead, Links.mem_unlink] at hx
    exact h.own v w i hx.1
  privVcpu w i hi := by
    rw [h'.vcpu]
    exact h.privVcpu w i hi

theorem mem_of_update {L : VcpuId → List VirqId} {l : List VirqId} {w : VcpuId} {y : VirqId}
    (hl : l.Perm (x :: L v)) : y ∈ Function.update L v l w ↔ y = x ∧ w = v ∨ y ∈ L w := by
  by_cases e : w = v
  · subst e
    rw [Function.update_self, hl.mem_iff, List.mem_cons]
    simp
  · rw [Function.update_of_ne e]
    simp [e]

theorem QueueWf.queued (h : QueueWf s) (hx : (s.irqs x).pdNode = false) (h' : Queued s s' x v)
    (hown : ∀ w i, x = .priv w i → w = v) : QueueWf s' := by
  obtain ⟨l, hl, he⟩ := h'.pdHead
  refine ⟨fun w y hy => ?_, fun y hy => ?_, ?_, fun u w i hy => ?_, fun w i hi => ?_⟩
  · rw [he, mem_of_update hl] at hy
    rcases hy with ⟨rfl, -⟩ | hy
    · exact h'.self.2
    · by_cases e : y = x
      · rw [e]
        exact h'.self.2
      · rw [(h'.other y e).2]
        exact h.node w y hy
  · by_cases e : y = x
    · rw [e]
      exact h'.self.1
    · rw [(h'.other y e).2] at hy
      rw [(h'.other y e).1]
      exact h.pdq y hy
  · rw [he]
    exact h.apart.link (h.free hx) hl
  · rw [he, mem_of_update hl] at hy
    rcases hy with ⟨e, rfl⟩ | hy
    · exact hown w i e.symm
    · exact h.own u w i hy
  · rw [h'.vcpu]
    exact h.privVcpu w i hi

theorem QueueWf.marked (h : QueueWf s) (h' : Marked s s' x) : QueueWf s' where
  node v y hy := by
    rw [h'.pdHead] at hy
    rw [h'.pdNode]
    exact h.node v y hy
  pdq y hy := by
    by_cases e : y = x
    · rw [e]
      exact h'.self
    · rw [h'.pdNode] at hy
      rw [h'.pdq y e]
      exact h.pdq y hy
  apart := by
    rw [h'.pdHead]
    exact h.apart
  own v w i hx := by
    rw [h'.pdHead] at hx
    exact h.own v w i hx
  privVcpu w i hi := by
    rw [h'.vcpu]
    exact h.privVcpu w i hi

theorem QueueWf.boot (h : Boot cfg s) : QueueWf s where
  node v x hx := by
    rw [h.pdHead] at hx
    cases hx
  pdq x hx := by
    cases x with
    | priv w i =>
      rw [h.priv] at hx
      cases hx
    | spi vm i =>
      rw [h.spi] at hx
      cases hx
  apart := by
    refine ⟨fun v => ?_, fun {v} _ _ hx => ?_⟩
    · rw [h.pdHead]
      exact List.nodup_nil
    · rw [h.pdHead] at hx
      cases hx
  own v w i hx := by
    rw [h.pdHead] at hx
    cases hx
  privVcpu w i _ := by
    rw [h.priv]
    rfl

theorem QueueWf.vcpuInjectVirq (h : QueueWf s) (c : Nat) (hown : ∀ w i, x = .priv w i → w = v) :
    QueueWf (s.vcpuInjectVirq c v x).1 := by
  rcases vcpuInjectVirq_cases s c v x with ⟨hs, -⟩ | ⟨-, -, -, hs, -⟩
  · exact h.same hs
  · rcases insertIntoPdlist_cases s x v with ⟨-, e⟩ | ⟨hn, -, hq⟩ | ⟨-, -, hm⟩
    · rw [e] at hs
      exact h.same hs
    · exact h.queued hn (hq.same hs) hown
    · exact h.marked (hm.same hs)

/-- `hv_virq_cpending` takes the interrupt off its list -/
theorem QueueWf.unqueued_virqCpending (h : QueueWf s) (x : VirqId) : Unqueued s (s.virqCpending x) x := by
  unfold virqCpending
  simp only
  split
  · refine ⟨rfl, ?_, fun y hy => ?_, fun y => ?_⟩
    · rw [setIrq_self, unlinkPd_irqs, setIrq_self, setIrq_self]
      exact ⟨rfl, rfl⟩
    · rw [setIrq_of_ne _ _ hy, unlinkPd_irqs, setIrq_of_ne _ _ hy, setIrq_of_ne _ _ hy]
      exact ⟨rfl, rfl⟩
    · rw [setIrq_field VgicIrq.vcpu fun _ => by rfl, unlinkPd_irqs, setIrq_field VgicIrq.vcpu fun _ => by rfl]
      exact setIrq_field VgicIrq.vcpu (fun _ => by rfl) y
  · rename_i hn
    rw [setIrq_self] at hn
    have hn' : (s.irqs x).pdNode = false := by simpa using hn
    refine ⟨?_, by rw [setIrq_self]; exact ⟨rfl, hn'⟩, fun y hy => by rw [setIrq_of_ne _ _ hy]; exact ⟨rfl, rfl⟩,
      fun y => setIrq_field VgicIrq.vcpu (fun _ => by rfl) y⟩
    -- the lists are as before, since `x` is on none
    funext w
    symm
    show (s.pdHead w).filter _ = s.pdHead w
    rw [List.filter_eq_self]
    intro y hy
    have : y ≠ x := fun e => h.free hn' w (e ▸ hy)
    simpa using this

theorem QueueWf.virqEnable (h : QueueWf s) (x : VirqId) (enable : Bool) : QueueWf (s.virqEnable x enable) := by
  have hs : PdSame s (s.setIrq x fun r => { r with enable := enable }) :=
    .setIrq s x fun _ => by exact ⟨rfl, rfl, rfl⟩
  have h1 := h.same hs
  unfold Vgic.virqEnable
  simp only
  split
  · exact h1
  · exact h1.unqueued (h1.unqueued_virqCpending x)

/-- one round of the flush takes the interrupt off its list, or leaves the lists alone -/
theorem flushVirq_pd (cfg : VgicConfig) (c : Nat) (v : VcpuId) (s : Vgic) (x : VirqId) :
    PdSame s (s.flushVirq cfg c v x).1 ∨ Unqueued s (s.flushVirq cfg c v x).1 x := by
  have hset : ∀ {t : Vgic} {f : VgicIrq → VgicIrq}, (∀ r, (f r).pdq = r.pdq ∧ (f r).pdNode = r.pdNode ∧
      (f r).vcpu = r.vcpu) → PdSame t (t.setIrq x f) := fun h => .setIrq _ x h
  unfold flushVirq
  split
  · simp only
    split
    · left
      dsimp only
      exact hset fun _ => by exact ⟨rfl, rfl, rfl⟩
    · refine .inr (.after (.trans ?_ (.vgicWriteLr cfg _ c x)) (unqueued_moveToLrLst _ v x))
      exact hset fun _ => by exact ⟨rfl, rfl, rfl⟩
  split
  · simp only
    split
    · left
      dsimp only
      exact hset fun _ => by exact ⟨rfl, rfl, rfl⟩
    · refine .inr (.after (.trans (.trans ?_ (.vgicWriteLr cfg _ c x)) (hset ?_))
        (unqueued_moveToLrLst _ v x))
      · exact hset fun _ => by exact ⟨rfl, rfl, rfl⟩
      · exact fun _ => ⟨rfl, rfl, rfl⟩
  split
  · exact .inr (.after (.trans (.vgicUpdateLr cfg s c x) (hset fun _ => by exact ⟨rfl, rfl, rfl⟩))
      (unqueued_moveToLrLst _ v x))
  · exact .inr (.after (.trans (.vgicWriteLr cfg s c x) (hset fun _ => by exact ⟨rfl, rfl, rfl⟩))
      (unqueued_moveToLrLst _ v x))
  · exact .inl (.refl s)

/-- what every round of the flush keeps, the flush keeps -/
theorem flushLoop_rule {I : Vgic → Prop} (hI : ∀ s x, I s → I (s.flushVirq cfg c v x).1) :
    ∀ (xs : List VirqId) {s : Vgic}, I s → I (flushLoop cfg c v xs s) := by
  intro xs
  induction xs with
  | nil => exact fun h => h
  | cons x xs ih =>
    intro s h
    rw [flushLoop]
    split
    · exact ih (hI s x h)
    · exact hI s x h

theorem QueueWf.flush (h : QueueWf s) (c : Nat) (v : VcpuId) : QueueWf (s.flushQueuedVirqs cfg c v) := by
  refine flushLoop_rule (fun s x h => ?_) _ h
  rcases flushVirq_pd cfg c v s x with hs | hu
  · exact h.same hs
  · exact h.unqueued hu

/-- the vCPU of an interrupt that has one is changed -/
theorem QueueWf.setVcpu (h : QueueWf s) {f : VgicIrq → VgicIrq}
    (hf : ∀ r, (f r).pdq = r.pdq ∧ (f r).pdNode = r.pdNode)
    (hx : ∀ w i, x = .priv w i → i = 0) : QueueWf (s.setIrq x f) where
  node v y hy := by
    rw [setIrq_field VgicIrq.pdNode fun r => (hf r).2]
    exact h.node v y hy
  pdq y hy := by
    rw [setIrq_field VgicIrq.pdNode fun r => (hf r).2] at hy
    rw [setIrq_field VgicIrq.pdq fun r => (hf r).1]
    exact h.pdq y hy
  apart := h.apart
  own := h.own
  privVcpu w i hi := by
    rw [setIrq_of_ne _ _ fun e => hi (hx w i e.symm)]
    exact h.privVcpu w i hi

theorem QueueWf.migrateVirq (h : QueueWf s) (c : Nat) (n : VcpuId)
    (hx : (s.irqs x).vcpu ≠ none ∨ cfg.hwintid x = 0) : QueueWf (s.migrateVirq cfg c n x).1 := by
  have hpriv : ∀ w i, x = .priv w i → i = 0 := by
    rintro w i rfl
    by_contra hi
    rcases hx with hx | hx
    · exact hx (h.privVcpu w i hi)
    · exact hi hx
  have hset : QueueWf (s.setIrq x fun r => { r with vcpu := some n }) := h.setVcpu (fun _ => ⟨rfl, rfl⟩) hpriv
  unfold Vgic.migrateVirq
  split
  · exact hset
  rename_i hhw
  split
  · exact h
  split
  · exact hset
  split
  · dsimp only
    exact h.setVcpu (fun _ => by exact ⟨rfl, rfl⟩) hpriv
  split
  · refine (hset.unqueued (unqueued_requeued s n x)).vcpuInjectVirq c fun w i e => ?_
    rw [e, VgicConfig.hwintid] at hhw
    exact absurd (hpriv w i e) hhw
  · exact h

theorem QueueWf.irouterWrite (h : QueueWf s) {c index value : Nat} {v : VcpuId}
    (hs : s.irouterWrite cfg c v index value = some s') : QueueWf s' := by
  unfold Vgic.irouterWrite at hs
  split at hs
  · cases hs
    exact h
  · rename_i x n _
    split at hs
    · cases hs
    · rename_i hn
      cases hs
      have hx : (s.irqs x).vcpu ≠ none ∨ cfg.hwintid x = 0 := by
        by_cases e : cfg.hwintid x = 0
        · exact .inr e
        · exact .inl fun e' => hn ⟨e', e⟩
      have hm : QueueWf (s.migrateVirq cfg c n x).1 := h.migrateVirq c n hx
      split
      · exact hm.same (.setIrq _ x fun _ => by exact ⟨rfl, rfl, rfl⟩)
      · exact hm

theorem QueueWf.clear {hd : VcpuId → List VirqId} (h : QueueWf s) (v : VcpuId)
    (hhd : hd = Function.update s.pdHead v [])
    (hnode : ∀ x, x ∉ s.pdHead v → (s.irqs x).pdNode = (s'.irqs x).pdNode ∨ ∃ i, x = .priv v i)
    (hpdq : ∀ x, (s'.irqs x).pdNode = true → (s'.irqs x).pdq = true)
    (hvcpu : ∀ w i, i ≠ 0 → (s'.irqs (.priv w i)).vcpu = none) (e : s'.pdHead = hd) : QueueWf s' := by
  subst hhd
  have hm : ∀ {w y}, y ∈ Function.update s.pdHead v [] w → w ≠ v ∧ y ∈ s.pdHead w := by
    intro w y hy
    by_cases ew : w = v
    · subst ew
      rw [Function.update_self] at hy
      cases hy
    · rw [Function.update_of_ne ew] at hy
      exact ⟨ew, hy⟩
  refine ⟨fun w y hy => ?_, hpdq, e ▸ h.apart.clear v, fun u w i hy => ?_, hvcpu⟩
  · rw [e] at hy
    obtain ⟨hw, hy⟩ := hm hy
    rcases hnode y fun hv => hw (h.apart.once hy hv) with hn | ⟨i, rfl⟩
    · rw [← hn]
      exact h.node w y hy
    · exact absurd (h.own w v i hy).symm hw
  · rw [e] at hy
    exact h.own u w i (hm hy).2

theorem QueueWf.vcpuPoweroff (h : QueueWf s) (c : Nat) (v : VcpuId) : QueueWf (s.vcpuPoweroff cfg c v) := by
  unfold Vgic.vcpuPoweroff
  split
  · exact h
  · refine h.clear v rfl (fun x hx => .inl ?_) (fun x hx => h.pdq x ?_) h.privVcpu rfl
    · show _ = if x ∈ s.pdHead v then false else (s.irqs x).pdNode
      rw [if_neg hx]
    · change (if x ∈ s.pdHead v then false else (s.irqs x).pdNode) = true at hx
      split at hx
      · cases hx
      · exact hx

theorem irqInit_priv (s : Vgic) (v w : VcpuId) (i : Nat) :
    (s.irqInit v).irqs (.priv w i) = if w = v then initVirq else s.irqs (.priv w i) := rfl

theorem QueueWf.irqInit (h : QueueWf s) (v : VcpuId) : QueueWf (s.irqInit v) := by
  refine h.clear v rfl (fun x _ => ?_) (fun x hx => ?_) (fun w i hi => ?_) rfl
  · cases x with
    | priv w i =>
      rw [irqInit_priv]
      by_cases e : w = v
      · exact .inr ⟨i, by rw [e]⟩
      · rw [if_neg e]
        exact .inl rfl
    | spi vm i => exact .inl rfl
  · cases x with
    | priv w i =>
      rw [irqInit_priv] at hx ⊢
      split at hx
      · cases hx
      · rename_i e
        rw [if_neg e]
        exact h.pdq _ hx
    | spi vm i => exact h.pdq (.spi vm i) hx
  · rw [irqInit_priv]
    split
    · rfl
    · exact h.privVcpu w i hi

/-- the steps that may change the pending lists -/
def VgicOp.pd : VgicOp → Bool
  | .inject .. | .enable .. | .cpending .. | .irouter .. | .flush .. | .poweroff .. | .irqInit .. => true
  | _ => false

/-- the steps that may change the list registers -/
def VgicOp.lrs : VgicOp → Bool
  | .flush .. | .sync .. | .switchTo .. | .enter .. | .exit .. | .ack .. | .eoi .. | .poweroff ..
  | .irqInit .. => true
  | _ => false

theorem PdSame.step {op : VgicOp} (h : vgicStep cfg s op = some s') (ho : op.pd = false) : PdSame s s' := by
  cases op <;> simp only [VgicOp.pd, Bool.true_eq_false] at ho <;> simp only [vgicStep] at h
  case priority x value =>
    cases h
    exact .setIrq s x fun _ => by exact ⟨rfl, rfl, rfl⟩
  case group x group =>
    cases h
    exact .setIrq s x fun _ => by exact ⟨rfl, rfl, rfl⟩
  case sync c =>
    split at h
    · cases h
    · obtain ⟨v, -, rfl⟩ := Option.map_eq_some_iff.mp h
      exact .syncIrqFromLrs cfg s c v
  case switchTo c v =>
    split at h
    · cases h
      exact .vcpuSwitchTo cfg s c v
    · cases h
  case enter c =>
    split at h
    · cases h
      exact ⟨rfl, fun _ => rfl, fun _ => rfl, fun _ => rfl⟩
    · cases h
  case exit c =>
    split at h
    · obtain ⟨v, -, rfl⟩ := Option.map_eq_some_iff.mp h
      refine .trans ?_ (.syncIrqFromLrs cfg _ c v)
      exact ⟨rfl, fun _ => rfl, fun _ => rfl, fun _ => rfl⟩
    · cases h
  case ack c k =>
    split at h
    · cases h
      exact ⟨rfl, fun _ => rfl, fun _ => rfl, fun _ => rfl⟩
    · cases h
  case eoi c k =>
    split at h
    · split at h
      · cases h
        exact ⟨rfl, fun _ => rfl, fun _ => rfl, fun _ => rfl⟩
      · cases h
        exact ⟨rfl, fun _ => rfl, fun _ => rfl, fun _ => rfl⟩
      · cases h
    · cases h
  case start v =>
    split at h
    · cases h
      exact ⟨rfl, fun _ => rfl, fun _ => rfl, fun _ => rfl⟩
    · cases h
  case stop v =>
    cases h
    exact ⟨rfl, fun _ => rfl, fun _ => rfl, fun _ => rfl⟩
  case resume v =>
    cases h
    exact (vcpuResume_same s v).1
  case place v c =>
    cases h
    exact ⟨rfl, fun _ => rfl, fun _ => rfl, fun _ => rfl⟩

theorem LrSame.step {op : VgicOp} (h : vgicStep cfg s op = some s') (ho : op.lrs = false) : LrSame s s' := by
  cases op <;> simp only [VgicOp.lrs, Bool.true_eq_false] at ho <;> simp only [vgicStep] at h
  case inject c vm vcpu virq =>
    obtain ⟨r, hr, rfl⟩ := Option.map_eq_some_iff.mp h
    unfold injectVirq at hr
    split at hr
    · cases hr
      exact .refl s
    · obtain ⟨v, -, rfl⟩ := Option.map_eq_some_iff.mp hr
      exact .vcpuInjectVirq s c v _
  case enable x enable =>
    cases h
    exact .virqEnable s x enable
  case cpending x =>
    cases h
    exact .virqCpending s x
  case priority x value =>
    cases h
    exact .setIrq s x fun _ => by rfl
  case group x group =>
    cases h
    exact .setIrq s x fun _ => by rfl
  case irouter c v index value => exact .irouterWrite cfg h
  case start v =>
    split at h
    · cases h
      exact ⟨rfl, fun _ => rfl, rfl, rfl, rfl, rfl, rfl⟩
    · cases h
  case stop v =>
    cases h
    exact ⟨rfl, fun _ => rfl, rfl, rfl, rfl, rfl, rfl⟩
  case resume v =>
    cases h
    exact (vcpuResume_same s v).2
  case place v c =>
    cases h
    exact ⟨rfl, fun _ => rfl, rfl, rfl, rfl, rfl, rfl⟩

/-- what `hv_inject_virq` injects, and into which vCPU -/
theorem injectVirq_some {c vm virq : Nat} {vcpu : Option VcpuId} {r : Vgic × Int}
    (h : s.injectVirq cfg c vm vcpu virq = some r) :
    r = (s, ERR_INVALID_ARGS) ∨ ∃ x v, getVirq cfg vm vcpu virq = some x ∧ s.injectTarget vcpu x = some v ∧
      r = s.vcpuInjectVirq c v x ∧ ∀ w i, x = .priv w i → w = v := by
  unfold injectVirq at h
  split at h
  · cases h
    exact .inl rfl
  · rename_i x hx
    obtain ⟨v, hv, rfl⟩ := Option.map_eq_some_iff.mp h
    refine .inr ⟨x, v, hx, hv, rfl, ?_⟩
    rintro w i rfl
    unfold getVirq at hx
    split at hx
    · obtain ⟨u, rfl, hu⟩ := Option.map_eq_some_iff.mp hx
      cases hu
      cases hv
      rfl
    · split at hx <;> cases hx

theorem QueueWf.step (h : QueueWf s) {op : VgicOp} (hs : vgicStep cfg s op = some s') : QueueWf s' := by
  by_cases ho : op.pd = false
  · exact h.same (.step hs ho)
  cases op <;> simp only [VgicOp.pd, not_true, Bool.true_eq_false, not_false_eq_true] at ho <;>
    simp only [vgicStep] at hs
  case inject c vm vcpu virq =>
    obtain ⟨r, hr, rfl⟩ := Option.map_eq_some_iff.mp hs
    rcases injectVirq_some hr with rfl | ⟨x, v, -, -, rfl, hown⟩
    · exact h
    · exact h.vcpuInjectVirq c hown
  case enable x enable =>
    cases hs
    exact h.virqEnable x enable
  case cpending x =>
    cases hs
    exact h.unqueued (h.unqueued_virqCpending x)
  case irouter c v index value => exact h.irouterWrite hs
  case flush c =>
    split at hs
    · cases hs
    · obtain ⟨v, -, rfl⟩ := Option.map_eq_some_iff.mp hs
      exact h.flush c v
  case poweroff c v =>
    split at hs
    · cases hs
      exact h.vcpuPoweroff c v
    · cases hs
  case irqInit v =>
    split at hs
    · cases hs
      exact (h.irqInit v).same ⟨rfl, fun _ => rfl, fun _ => rfl, fun _ => rfl⟩
    · cases hs

end

end Vgic
end LkHv
