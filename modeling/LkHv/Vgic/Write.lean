import LkHv.Vgic.Mmio
import LkHv.Vgic.System

/-!
# Writes to the emulated registers (`hv/arch/armv8a/vgic_mmio.c`)

`data` is the register of the guest, whatever the size of the access.  The functions of the bitmaps and of
`GICD_ICFGR` work on 32 and 16 interrupts, those of `GICD_IPRIORITYR` on as many as the access has bytes.

* `irqLoop`                 the loop over interrupts that exist;
* `distMmioWrite`, `redistMmioWrite`   the source's;
* `Conf`, `conf`            the configuration of an interrupt;
* `irqLoop_get`             what the loop does to each interrupt;
* `igrouprWrite_conf`, `isenablerWrite_conf`, `icenablerWrite_conf`, `ipriorityWrite_conf`, `icfgrWrite_conf`
                            the configuration after a write, register by register.
-/

namespace LkHv.VgicMmio
open Trap

def GIC_BASE_PPI : Nat := 16

def Gic.setIrq (g : Gic) (x : VirqId) (f : VgicIrq → VgicIrq) : Gic := { g with vgic := g.vgic.setIrq x f }

/-- the loop over `n` interrupts from `index` on; those that do not exist are left out -/
def irqLoop (v : VcpuId) (index : Nat) (f : Nat → VirqId → Gic → Gic) : Nat → Gic → Gic
  | 0, g => g
  | n + 1, g =>
    let g := irqLoop v index f n g
    match g.getVirq v (index + n) with
    | none => g
    | some x => f n x g

/-! ## the register functions -/

def igrouprWrite (g : Gic) (v : VcpuId) (index : Nat) (value : BitVec 32) : Gic :=
  irqLoop v index (fun i x g => g.setIrq x fun r => { r with group := value.getLsbD i }) 32 g

/-- one round of `isenabler_write` -/
def enableVirq (value : BitVec 32) (i : Nat) (x : VirqId) (g : Gic) : Gic :=
  if value.getLsbD i = false ∨ (g.vgic.irqs x).enable then g
  else { g with vgic := (g.vgic.setIrq x fun r => { r with enable := true }).virqEnable x true }

def isenablerWrite (g : Gic) (v : VcpuId) (index : Nat) (value : BitVec 32) : Gic :=
  irqLoop v index (enableVirq value) 32 g

/-- one round of `icenabler_write` -/
def disableVirq (value : BitVec 32) (i : Nat) (x : VirqId) (g : Gic) : Gic :=
  if value.getLsbD i = false ∨ (g.vgic.irqs x).enable = false then g
  else { g with vgic := (g.vgic.setIrq x fun r => { r with enable := false }).virqEnable x false }

def icenablerWrite (g : Gic) (v : VcpuId) (index : Nat) (value : BitVec 32) : Gic :=
  irqLoop v index (disableVirq value) 32 g

/-- `is_virq_pending` -/
def isVirqPending (g : Gic) (x : VirqId) : Bool := (g.vgic.irqs x).pdq || (g.vgic.irqs x).pending

/-- one round of `ispendr_write`; `gic_trigger_interrupt` makes the physical interrupt pending -/
def setPending (v : VcpuId) (index : Nat) (value : BitVec 32) (i : Nat) (x : VirqId) (g : Gic) : Gic :=
  if value.getLsbD i = false ∨ index + i < GIC_BASE_PPI then g
  else if (g.vgic.irqs x).enable = false ∨ isVirqPending g x then g
  else if g.cfg.hwintid x ≠ 0 then { g with ispendr := Function.update g.ispendr (g.cfg.hwintid x) true }
  else { g with vgic := (g.vgic.vcpuInjectVirq g.cpu v x).1 }

def ispendrWrite (g : Gic) (v : VcpuId) (index : Nat) (value : BitVec 32) : Gic :=
  irqLoop v index (setPending v index value) 32 g

/-- one round of `icpendr_write` -/
def clearPending (index : Nat) (value : BitVec 32) (i : Nat) (x : VirqId) (g : Gic) : Gic :=
  if value.getLsbD i = false ∨ index + i < GIC_BASE_PPI then g
  else if (g.vgic.irqs x).enable = false then g
  else
    let g := { g with vgic := g.vgic.virqCpending x }
    if g.cfg.hwintid x ≠ 0 then { g with ispendr := Function.update g.ispendr (g.cfg.hwintid x) false } else g

def icpendrWrite (g : Gic) (v : VcpuId) (index : Nat) (value : BitVec 32) : Gic :=
  irqLoop v index (clearPending index value) 32 g

/-- `value` is shifted for interrupts that do not exist only -/
def ipriorityWrite (v : VcpuId) : Gic → Nat → BitVec 32 → Nat → Gic
  | g, _, _, 0 => g
  | g, irq, value, len + 1 =>
    match g.getVirq v irq with
    | none => ipriorityWrite v g (irq + 1) (value >>> 8) len
    | some x =>
      ipriorityWrite v (g.setIrq x fun r => { r with priority := Vgic.ipriority value.toNat }) (irq + 1) value len

def icfgrWrite (g : Gic) (v : VcpuId) (index : Nat) (value : BitVec 32) : Gic :=
  irqLoop v index (fun i x g => { g with edge := Function.update g.edge x (value.getLsbD (2 * i + 1)) }) 16 g

/-- `none` is the lock of a null vCPU taken -/
def irouterWrite (g : Gic) (v : VcpuId) (index : Nat) (value : Reg) : Option Gic :=
  (g.vgic.irouterWrite g.cfg g.cpu v index value.toNat).map fun s => { g with vgic := s }

/-! ## the device functions -/

/-- `vm` is the VM of the distributor `arg` -/
def distMmioWrite (g : Gic) (vm : Nat) (base gpa : Reg) (len : Nat) (data : Reg) : Option Gic :=
  let off := offset gpa base
  let v := g.vcpu
  let value := data.truncate 32
  -- without `GICD_CTRL_RWP`
  if off = 0x0 then some { g with gicdCtrl := Function.update g.gicdCtrl vm (value &&& 0x7fffffff) }
  else if 0x80 ≤ off ∧ off ≤ 0xfc then some (igrouprWrite g v (getIrqNo off 0x80 5) value)
  else if 0x100 ≤ off ∧ off ≤ 0x17c then some (isenablerWrite g v (getIrqNo off 0x100 5) value)
  else if 0x180 ≤ off ∧ off ≤ 0x1fc then some (icenablerWrite g v (getIrqNo off 0x180 5) value)
  else if 0x200 ≤ off ∧ off ≤ 0x27c then some (ispendrWrite g v (getIrqNo off 0x200 5) value)
  else if 0x280 ≤ off ∧ off ≤ 0x2fc then some (icpendrWrite g v (getIrqNo off 0x280 5) value)
  else if 0x400 ≤ off ∧ off ≤ 0x7f8 then some (ipriorityWrite v g (getIrqNo off 0x400 2) value len)
  else if 0xc00 ≤ off ∧ off ≤ 0xcfc then some (icfgrWrite g v (getIrqNo off 0xc00 4) value)
  else if 0x6100 ≤ off ∧ off ≤ 0x7fd8 then irouterWrite g v ((off - 0x6100) >>> 3) data
  else some g

def redistSgiMmioWrite (g : Gic) (v : VcpuId) (len : Nat) (data : Reg) (off : Nat) : Gic :=
  let value := data.truncate 32
  if off = 0x80 then igrouprWrite g v 0 value
  else if off = 0x100 then isenablerWrite g v 0 value
  else if off = 0x180 then icenablerWrite g v 0 value
  else if off = 0x200 then ispendrWrite g v 0 value
  else if off = 0x280 then icpendrWrite g v 0 value
  else if 0x400 ≤ off ∧ off ≤ 0x41c then ipriorityWrite v g 0 value len
  else if off = 0xc00 then icfgrWrite g v 0 value
  else if off = 0xc04 then icfgrWrite g v 16 value
  else g

/-- `v` is the vCPU `arg`; the frame of the redistributor itself ignores writes -/
def redistMmioWrite (g : Gic) (v : VcpuId) (base gpa : Reg) (len : Nat) (data : Reg) : Gic :=
  if offset gpa base < GICR_FRAME then g
  else redistSgiMmioWrite g v len data (offset gpa base - GICR_FRAME)

/-- the write functions of `dist_mops` and `redist_mops` -/
def Range.write (r : Range) (g : Gic) (gpa : Reg) (len : Nat) (data : Reg) : Option Gic :=
  match r with
  | .dist vm base => distMmioWrite g vm base gpa len data
  | .redist v base => some (redistMmioWrite g v base gpa len data)

/-! ## the configuration of an interrupt -/

structure Conf where
  group : Bool
  enable : Bool
  priority : Nat
  edge : Bool
  iroute : Nat

def irqConf (edge : Bool) (r : VgicIrq) : Conf := ⟨r.group, r.enable, r.priority, edge, r.iroute⟩

def conf (g : Gic) (x : VirqId) : Conf := irqConf (g.edge x) (g.vgic.irqs x)

section
variable {g g' : Gic} {v : VcpuId} {index n : Nat} {x y : VirqId}

theorem getVirq_congr (h : g'.cfg = g.cfg) (v : VcpuId) (irq : Nat) : g'.getVirq v irq = g.getVirq v irq := by
  unfold Gic.getVirq
  rw [h]

/-- an interrupt has one number -/
theorem getVirq_inj {i j : Nat} (hi : g.getVirq v i = some x) (hj : g.getVirq v j = some x) : i = j := by
  unfold Gic.getVirq Vgic.getVirq at hi hj
  have h32 : GIC_BASE_SPI = 32 := rfl
  split at hi
  · cases hi
    split at hj
    · cases hj
      rfl
    · split at hj <;> cases hj
  · split at hi
    · cases hi
      split at hj
      · cases hj
      · split at hj
        · have := (VirqId.spi.inj (Option.some.inj hj)).2
          omega
        · cases hj
    · cases hi

/-- **What the loop does**, seen through `get`, which a round changes for its own interrupt only. -/
theorem irqLoop_get {α : Type} (get : Gic → VirqId → α) (h : Nat → α → α) {f : Nat → VirqId → Gic → Gic}
    (hcfg : ∀ i x g, (f i x g).cfg = g.cfg ∧ (f i x g).vcpu = g.vcpu)
    (hself : ∀ i x g, get (f i x g) x = h i (get g x)) (hother : ∀ i x g y, y ≠ x → get (f i x g) y = get g y) :
    ((irqLoop v index f n g).cfg = g.cfg ∧ (irqLoop v index f n g).vcpu = g.vcpu) ∧
      (∀ i < n, ∀ x, g.getVirq v (index + i) = some x → get (irqLoop v index f n g) x = h i (get g x)) ∧
      ∀ y, (∀ i < n, g.getVirq v (index + i) ≠ some y) → get (irqLoop v index f n g) y = get g y := by
  induction n with
  | zero => exact ⟨⟨rfl, rfl⟩, fun i hi => absurd hi (by lia), fun _ _ => rfl⟩
  | succ n ih =>
    obtain ⟨hc, hin, hout⟩ := ih
    rw [irqLoop, getVirq_congr hc.1]
    cases hx : g.getVirq v (index + n) with
    | none =>
      refine ⟨hc, fun i hi x hix => ?_, fun y hy => hout y fun i hi => hy i (by lia)⟩
      have hne : i ≠ n := by
        rintro rfl
        rw [hx] at hix
        cases hix
      exact hin i (by lia) x hix
    | some z =>
      dsimp only
      refine ⟨⟨(hcfg n z _).1.trans hc.1, (hcfg n z _).2.trans hc.2⟩, fun i hi x hix => ?_, fun y hy => ?_⟩
      · by_cases e : i = n
        · subst e
          rw [hx] at hix
          cases hix
          rw [hself, hout z fun j hj hjz => absurd (getVirq_inj hjz hx) (by lia)]
        · have hne : x ≠ z := by
            rintro rfl
            exact e (by have := getVirq_inj hix hx; lia)
          rw [hother n z _ x hne, hin i (by lia) x hix]
      · have hne : y ≠ z := by
          rintro rfl
          exact hy n (by lia) hx
        rw [hother n z _ y hne]
        exact hout y fun i hi => hy i (by lia)

theorem conf_setIrq (f : VgicIrq → VgicIrq) (x y : VirqId) :
    conf (g.setIrq x f) y = if y = x then irqConf (g.edge x) (f (g.vgic.irqs x)) else conf g y := by
  show irqConf (g.edge y) ((g.vgic.setIrq x f).irqs y) = _
  rw [Vgic.setIrq_irqs]
  split
  · rename_i e
    rw [e]
  · rfl

/-- clearing what is pending is not configuration -/
theorem irqConf_virqCpending (edge : Bool) (s : Vgic) (x y : VirqId) :
    irqConf edge ((s.virqCpending x).irqs y) = irqConf edge (s.irqs y) := by
  unfold Vgic.virqCpending
  dsimp only
  split
  · rw [Vgic.setIrq_field (irqConf edge) fun _ => by rfl, Vgic.unlinkPd_irqs,
      Vgic.setIrq_field (irqConf edge) fun _ => by rfl]
    exact Vgic.setIrq_field (irqConf edge) (fun _ => by rfl) y
  · exact Vgic.setIrq_field (irqConf edge) (fun _ => by rfl) y

theorem irqConf_insertIntoPdlist (e : Bool) (s : Vgic) (x y : VirqId) (v : VcpuId) :
    irqConf e ((s.insertIntoPdlist x v).irqs y) = irqConf e (s.irqs y) := by
  have hq : ∀ y, irqConf e ((s.setIrq x fun r => { r with pdq := true }).irqs y) = irqConf e (s.irqs y) := fun y =>
    Vgic.setIrq_field (irqConf e) (fun _ => by rfl) y
  have hl : ∀ (t : Vgic) l, irqConf e ((t.linkPd x v l).irqs y) = irqConf e (t.irqs y) := by
    intro t l
    rw [Vgic.linkPd_irqs]
    exact Vgic.setIrq_field (irqConf e) (fun _ => by rfl) y
  unfold Vgic.insertIntoPdlist
  split
  · rfl
  · dsimp only
    split
    · rw [hl, hq]
    · split
      · rw [hl, hq]
      · exact hq y

theorem irqConf_vcpuInjectVirq (e : Bool) (s : Vgic) (c : Nat) (v : VcpuId) (x y : VirqId) :
    irqConf e ((s.vcpuInjectVirq c v x).1.irqs y) = irqConf e (s.irqs y) := by
  have hr : ∀ t : Vgic, (t.vcpuResume v).irqs = t.irqs := by
    intro t
    unfold Vgic.vcpuResume
    split <;> rfl
  unfold Vgic.vcpuInjectVirq
  split
  · rfl
  split
  · rfl
  split
  · rfl
  dsimp only
  split
  · split <;> exact irqConf_insertIntoPdlist e s x y v
  · split
    · dsimp only
      rw [hr]
      exact irqConf_insertIntoPdlist e s x y v
    · exact irqConf_insertIntoPdlist e s x y v

theorem conf_virqEnable (g : Gic) (x y : VirqId) (enable : Bool) :
    conf { g with vgic := (g.vgic.setIrq x fun r => { r with enable := enable }).virqEnable x enable } y =
      if y = x then { conf g x with enable := enable } else conf g y := by
  show irqConf (g.edge y) (((g.vgic.setIrq x _).virqEnable x enable).irqs y) = _
  have h : irqConf (g.edge y) (((g.vgic.setIrq x fun r => { r with enable := enable }).virqEnable x enable).irqs y) =
      irqConf (g.edge y) (((g.vgic.setIrq x fun r => { r with enable := enable }).setIrq x
        fun r => { r with enable := enable }).irqs y) := by
    unfold Vgic.virqEnable
    dsimp only
    split
    · rfl
    · exact irqConf_virqCpending _ _ x y
  rw [h, Vgic.setIrq_irqs]
  split
  · rename_i e
    rw [Vgic.setIrq_self, e]
    rfl
  · rename_i e
    rw [Vgic.setIrq_of_ne _ _ e]
    rfl

/-! ## the configuration after a write -/

/-- the interrupts of a loop have their configuration changed by `h`, the others are as before -/
structure Changed (g g' : Gic) (v : VcpuId) (index n : Nat) (h : Nat → Conf → Conf) : Prop where
  cfg : g'.cfg = g.cfg
  vcpu : g'.vcpu = g.vcpu
  inside : ∀ i < n, ∀ x, g.getVirq v (index + i) = some x → conf g' x = h i (conf g x)
  outside : ∀ y, (∀ i < n, g.getVirq v (index + i) ≠ some y) → conf g' y = conf g y

theorem irqLoop_changed (h : Nat → Conf → Conf) {f : Nat → VirqId → Gic → Gic}
    (hcfg : ∀ i x g, (f i x g).cfg = g.cfg ∧ (f i x g).vcpu = g.vcpu)
    (hf : ∀ i x g y, conf (f i x g) y = if y = x then h i (conf g x) else conf g y) :
    Changed g (irqLoop v index f n g) v index n h := by
  obtain ⟨h1, h2, h3⟩ := @irqLoop_get g v index n _ conf h _ hcfg
    (fun i x g => by rw [hf, if_pos rfl]) fun i x g y hy => by rw [hf, if_neg hy]
  exact ⟨h1.1, h1.2, h2, h3⟩

theorem igrouprWrite_conf (g : Gic) (v : VcpuId) (index : Nat) (value : BitVec 32) :
    Changed g (igrouprWrite g v index value) v index 32 fun i c => { c with group := value.getLsbD i } :=
  irqLoop_changed _ (fun _ _ _ => ⟨rfl, rfl⟩) fun _ x _ y => conf_setIrq _ x y

theorem isenablerWrite_conf (g : Gic) (v : VcpuId) (index : Nat) (value : BitVec 32) :
    Changed g (isenablerWrite g v index value) v index 32
      fun i c => { c with enable := c.enable || value.getLsbD i } := by
  refine irqLoop_changed _ (fun i x g => ?_) fun i x g y => ?_
  · unfold enableVirq
    split <;> exact ⟨rfl, rfl⟩
  · unfold enableVirq
    split
    · rename_i he
      split
      · rename_i e
        rw [e]
        have hc : ((g.vgic.irqs x).enable || value.getLsbD i) = (g.vgic.irqs x).enable := by
          rcases he with he | he
          · rw [he, Bool.or_false]
          · rw [he, Bool.true_or]
        show conf g x = { conf g x with enable := (g.vgic.irqs x).enable || value.getLsbD i }
        rw [hc]
        rfl
      · rfl
    · rename_i he
      obtain ⟨h1, -⟩ := not_or.mp he
      have hb : value.getLsbD i = true := by simpa using h1
      rw [conf_virqEnable, hb]
      show _ = if y = x then { conf g x with enable := (g.vgic.irqs x).enable || true } else _
      rw [Bool.or_true]

theorem icenablerWrite_conf (g : Gic) (v : VcpuId) (index : Nat) (value : BitVec 32) :
    Changed g (icenablerWrite g v index value) v index 32
      fun i c => { c with enable := c.enable && !value.getLsbD i } := by
  refine irqLoop_changed _ (fun i x g => ?_) fun i x g y => ?_
  · unfold disableVirq
    split <;> exact ⟨rfl, rfl⟩
  · unfold disableVirq
    split
    · rename_i he
      split
      · rename_i e
        rw [e]
        have hc : ((g.vgic.irqs x).enable && !value.getLsbD i) = (g.vgic.irqs x).enable := by
          rcases he with he | he
          · rw [he, Bool.not_false, Bool.and_true]
          · rw [he, Bool.false_and]
        show conf g x = { conf g x with enable := (g.vgic.irqs x).enable && !value.getLsbD i }
        rw [hc]
        rfl
      · rfl
    · rename_i he
      obtain ⟨h1, -⟩ := not_or.mp he
      have hb : value.getLsbD i = true := by simpa using h1
      rw [conf_virqEnable, hb]
      show _ = if y = x then { conf g x with enable := (g.vgic.irqs x).enable && !true } else _
      rw [Bool.not_true, Bool.and_false]

theorem icfgrWrite_conf (g : Gic) (v : VcpuId) (index : Nat) (value : BitVec 32) :
    Changed g (icfgrWrite g v index value) v index 16 fun i c => { c with edge := value.getLsbD (2 * i + 1) } := by
  refine irqLoop_changed _ (fun _ _ _ => ⟨rfl, rfl⟩) fun i x g y => ?_
  show irqConf (Function.update g.edge x (value.getLsbD (2 * i + 1)) y) (g.vgic.irqs y) = _
  rw [Function.update_apply]
  split
  · rename_i e
    rw [e]
    rfl
  · rfl

/-- the entry that `ipriority_write` makes is always 0 -/
theorem ipriority_zero (value : Nat) : Vgic.ipriority value = 0 := by
  unfold Vgic.ipriority
  rw [show ((1 <<< 0) - 1) <<< (8 - 0) = 0 from rfl, Nat.and_zero, Nat.zero_mod]

theorem ipriorityWrite_conf (g : Gic) (v : VcpuId) (index : Nat) (value : BitVec 32) (len : Nat) :
    Changed g (ipriorityWrite v g index value len) v index len fun _ c => { c with priority := 0 } := by
  induction len generalizing g index value with
  | zero => exact ⟨rfl, rfl, fun i hi => absurd hi (by lia), fun _ _ => rfl⟩
  | succ len ih =>
    rw [ipriorityWrite]
    cases hx : g.getVirq v index with
    | none =>
      obtain ⟨h0, h1, h2, h3⟩ := ih g (index + 1) (value >>> 8)
      refine ⟨h0, h1, fun i hi x hix => ?_, fun y hy => h3 y fun i hi => ?_⟩
      · have hi0 : i ≠ 0 := by
          rintro rfl
          rw [Nat.add_zero, hx] at hix
          cases hix
        exact h2 (i - 1) (by lia) x (by rwa [show index + 1 + (i - 1) = index + i by lia])
      · rw [show index + 1 + i = index + (i + 1) by lia]
        exact hy (i + 1) (by lia)
    | some z =>
      obtain ⟨h0, h1, h2, h3⟩ :=
        ih (g.setIrq z fun r => { r with priority := Vgic.ipriority value.toNat }) (index + 1) value
      dsimp only
      refine ⟨h0, h1, fun i hi x hix => ?_, fun y hy => ?_⟩
      · by_cases hi0 : i = 0
        · subst hi0
          rw [Nat.add_zero, hx] at hix
          cases hix
          rw [h3 z fun j _ hj => absurd (getVirq_inj (g := g) hj hx) (by lia), conf_setIrq, if_pos rfl, ipriority_zero]
          rfl
        · have hz : x ≠ z := by
            rintro rfl
            exact hi0 (by have := getVirq_inj hix hx; lia)
          rw [h2 (i - 1) (by lia) x (by rwa [show index + 1 + (i - 1) = index + i by lia]), conf_setIrq, if_neg hz]
      · rw [h3 y fun i hi => by
            rw [show index + 1 + i = index + (i + 1) by lia]
            exact hy (i + 1) (by lia),
          conf_setIrq, if_neg]
        rintro rfl
        exact hy 0 (by lia) hx

end

end LkHv.VgicMmio
