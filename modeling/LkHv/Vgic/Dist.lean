import LkHv.Vgic.Mmio

/-!
# The interrupts of a distributor (`hv_vgic.c`, `vgic_mmio.c`, `gic_v3.c`)

`get_max_spi` gives the highest INTID of the physical controller.  `hv_vm_irq_init` takes it for the number of SPIs,
`init_gicd_reg` turns that number into `ITLinesNumber` without the 32 private interrupts, and the number of vCPUs
is put into the same bits.

* `getMaxSpi`, `vmIrqInit`, `initGicdReg`, `vmInitVirq`   the source's;
* `distIrqs`              the interrupts a register access works on;
* `IntidsAgree`           what a guest is told, what `get_virq` accepts and what the registers reach agree;
* `backed_iff_accepted`, `index_in_range`   the parts of it that hold;
* `vmInitVirq_in_range_iff`, `cpuNumber_iff`   exactly when two others do;
* `intids_never_agree`    it never holds as a whole.
-/

namespace LkHv.VgicMmio

/-- `get_max_ints`: the field `ITLinesNumber` of a `GICD_TYPER` -/
def getMaxInts (typer : BitVec 32) : BitVec 32 := typer &&& 0x1f

/-- `get_max_spi` -/
def getMaxSpi (typer : BitVec 32) : BitVec 32 := 32 * (getMaxInts typer + 1) - 1

/-- `struct vgic_dist`: the array `spis` has the entries that `hv_vm_irq_init` allocates -/
structure VgicDist where
  spiNum : BitVec 32
  gicdTyper : BitVec 32
  spis : List VgicIrq

/-- `init_gicd_reg` -/
def initGicdReg (vcpuNum spiNum : BitVec 32) : BitVec 32 := (spiNum + 1) >>> 5 ||| (vcpuNum - 1)

/-- `hv_vm_irq_init`, on a physical controller with the register `typer` -/
def vmIrqInit (typer vcpuNum : BitVec 32) : VgicDist where
  spiNum := getMaxSpi typer
  gicdTyper := initGicdReg vcpuNum (getMaxSpi typer)
  spis := List.replicate (getMaxSpi typer).toNat initVirq

/-- `hv_vm_init_virq`: the entry of `spis` that it writes -/
def vmInitVirq (d : VgicDist) (virq : Nat) : Option Nat :=
  if virq < GIC_BASE_SPI then none
  else if virq - GIC_BASE_SPI > d.spiNum.toNat then none
  else some (virq - GIC_BASE_SPI)

/-- the configuration of a VM with the distributor `d` -/
def VgicDist.cfg (d : VgicDist) (cfg : VgicConfig) : VgicConfig := { cfg with spiNum := d.spiNum.toNat }

/-- the interrupts that `dist_mmio_read` or `dist_mmio_write` passes to `get_virq` -/
def distIrqs (write : Bool) (off len : Nat) : List Nat :=
  let bits := fun index n => (List.range n).map (index + ·)
  if 0x80 ≤ off ∧ off ≤ 0xfc then bits (getIrqNo off 0x80 5) 32
  else if 0x100 ≤ off ∧ off ≤ 0x17c then bits (getIrqNo off 0x100 5) 32
  else if 0x180 ≤ off ∧ off ≤ 0x1fc then bits (getIrqNo off 0x180 5) 32
  else if 0x200 ≤ off ∧ off ≤ 0x27c then bits (getIrqNo off 0x200 5) 32
  else if 0x280 ≤ off ∧ off ≤ 0x2fc then bits (getIrqNo off 0x280 5) 32
  else if 0x400 ≤ off ∧ off ≤ 0x7f8 then
    if write then bits (getIrqNo off 0x400 2) len
    -- the base is that of `GICD_ICPENDR`
    else if len = 1 ∨ len = 4 then bits (getIrqNo off 0x280 2) len
    else []
  else if 0xc00 ≤ off ∧ off ≤ 0xcfc then bits (getIrqNo off 0xc00 4) 16
  else if 0x6100 ≤ off ∧ off ≤ 0x7fd8 then [(off - 0x6100) >>> 3]
  else []

/-! ## the three sets -/

/-- a guest that reads `typer` counts the interrupt in, as the driver does; the last four INTIDs are special -/
def Advertised (typer : BitVec 32) (i : Nat) : Prop := i ≤ (getMaxSpi typer).toNat ∧ i < 1020

/-- `get_virq` finds the interrupt -/
def Accepted (cfg : VgicConfig) (v : VcpuId) (i : Nat) : Prop := (Vgic.getVirq cfg v.vm (some v) i).isSome

/-- a register of the distributor reaches the interrupt -/
def Backed (cfg : VgicConfig) (v : VcpuId) (i : Nat) : Prop :=
  ∃ write off len, i ∈ distIrqs write off len ∧ Accepted cfg v i

/-- the numbers agree, for a VM with `vcpuNum` vCPUs and its vCPU `v` -/
structure IntidsAgree (cfg : VgicConfig) (typer vcpuNum : BitVec 32) (v : VcpuId) : Prop where
  accepted : ∀ i, Advertised (vmIrqInit typer vcpuNum).gicdTyper i ↔ Accepted ((vmIrqInit typer vcpuNum).cfg cfg) v i
  backed : ∀ i, Advertised (vmIrqInit typer vcpuNum).gicdTyper i ↔ Backed ((vmIrqInit typer vcpuNum).cfg cfg) v i
  index : ∀ i vm k, Vgic.getVirq ((vmIrqInit typer vcpuNum).cfg cfg) v.vm (some v) i = some (.spi vm k) →
    k < (vmIrqInit typer vcpuNum).spis.length
  init : ∀ virq k, vmInitVirq (vmIrqInit typer vcpuNum) virq = some k → k < (vmIrqInit typer vcpuNum).spis.length
  cpuNumber : ∀ i, Advertised (vmIrqInit typer vcpuNum).gicdTyper i ↔ Advertised (vmIrqInit typer 1).gicdTyper i

section
variable {cfg : VgicConfig} {typer vcpuNum : BitVec 32} {v : VcpuId}

/-! ## the numbers -/

theorem getMaxInts_lt (typer : BitVec 32) : (getMaxInts typer).toNat < 32 := by
  unfold getMaxInts
  rw [BitVec.toNat_and]
  exact lt_of_le_of_lt Nat.and_le_right (by decide)

theorem getMaxSpi_toNat (typer : BitVec 32) : (getMaxSpi typer).toNat = 32 * (getMaxInts typer).toNat + 31 := by
  have h := getMaxInts_lt typer
  unfold getMaxSpi
  bv_omega

/-- the lines of the distributor: those of the physical one plus one, or more -/
theorem gicdTyper_ints (typer vcpuNum : BitVec 32) :
    getMaxInts (vmIrqInit typer vcpuNum).gicdTyper = (getMaxInts typer + 1 ||| (vcpuNum - 1)) &&& 0x1f := by
  have hspi : (getMaxSpi typer + 1) >>> 5 = getMaxInts typer + 1 := by
    have h := getMaxInts_lt typer
    apply BitVec.eq_of_toNat_eq
    rw [BitVec.toNat_ushiftRight, Nat.shiftRight_eq_div_pow, BitVec.toNat_add, getMaxSpi_toNat]
    bv_omega
  show (((getMaxSpi typer + 1) >>> 5 ||| (vcpuNum - 1)) &&& 0x1f) = _
  rw [hspi]

theorem accepted_iff (i : Nat) : Accepted ((vmIrqInit typer vcpuNum).cfg cfg) v i ↔
    i < 32 * (getMaxInts typer).toNat + 63 := by
  have hspi : ((vmIrqInit typer vcpuNum).cfg cfg).spiNum = 32 * (getMaxInts typer).toNat + 31 := getMaxSpi_toNat typer
  unfold Accepted Vgic.getVirq
  rw [hspi, show GIC_BASE_SPI = 32 from rfl]
  split
  · simp only [Option.map_some, Option.isSome_some, true_iff]
    omega
  · split
    · simp only [Option.isSome_some, true_iff]
      omega
    · simp only [Option.isSome_none, Bool.false_eq_true, false_iff]
      omega

/-! ## what agrees -/

/-- every interrupt that `get_virq` accepts is in a register -/
theorem backed_iff_accepted (i : Nat) : Backed ((vmIrqInit typer vcpuNum).cfg cfg) v i ↔
    Accepted ((vmIrqInit typer vcpuNum).cfg cfg) v i := by
  refine ⟨fun ⟨_, _, _, _, h⟩ => h, fun h => ?_⟩
  have hlt := (accepted_iff i).mp h
  have hints := getMaxInts_lt typer
  by_cases hi : i < 1024
  · -- in `GICD_IGROUPR`
    refine ⟨false, 0x80 + 4 * (i / 32), 4, ?_, h⟩
    unfold distIrqs
    rw [if_pos (by lia)]
    refine List.mem_map.mpr ⟨i % 32, List.mem_range.mpr (by lia), ?_⟩
    show (0x80 + 4 * (i / 32) - 0x80) <<< 3 + i % 32 = i
    rw [Nat.shiftLeft_eq]
    lia
  · -- in `GICD_IPRIORITYR`, read from the wrong base
    refine ⟨false, 0x280 + i, 1, ?_, h⟩
    unfold distIrqs
    rw [if_neg (by lia), if_neg (by lia), if_neg (by lia), if_neg (by lia), if_neg (by lia),
      if_pos (by lia), if_neg (by decide), if_pos (.inl rfl)]
    refine List.mem_map.mpr ⟨0, by decide, ?_⟩
    show (0x280 + i - 0x280) <<< 0 + 0 = i
    rw [Nat.shiftLeft_zero]
    lia

/-- no register access leaves the array -/
theorem index_in_range {i vm k : Nat}
    (h : Vgic.getVirq ((vmIrqInit typer vcpuNum).cfg cfg) v.vm (some v) i = some (.spi vm k)) :
    k < (vmIrqInit typer vcpuNum).spis.length := by
  show k < (List.replicate (getMaxSpi typer).toNat initVirq).length
  rw [List.length_replicate]
  unfold Vgic.getVirq at h
  split at h
  · cases h
  · split at h
    · rename_i hi
      cases h
      exact hi
    · cases h

/-- `hv_vm_init_virq` leaves it for one number -/
theorem vmInitVirq_in_range_iff (virq : Nat) :
    (∀ k, vmInitVirq (vmIrqInit typer vcpuNum) virq = some k → k < (vmIrqInit typer vcpuNum).spis.length) ↔
      virq ≠ 32 + (getMaxSpi typer).toNat := by
  have hlen : (vmIrqInit typer vcpuNum).spis.length = (getMaxSpi typer).toNat := List.length_replicate
  have hspi : (vmIrqInit typer vcpuNum).spiNum = getMaxSpi typer := rfl
  rw [hlen]
  unfold vmInitVirq
  rw [hspi, show GIC_BASE_SPI = 32 from rfl]
  constructor
  · rintro h rfl
    have := h (getMaxSpi typer).toNat (by rw [if_neg (by lia), if_neg (by lia)]; congr 1; lia)
    lia
  · intro h k hk
    split at hk
    · cases hk
    split at hk
    · cases hk
    cases hk
    lia

theorem advertised_inj {t t' : BitVec 32} (h : ∀ i, Advertised t i ↔ Advertised t' i) :
    getMaxInts t = getMaxInts t' := by
  have h1 := getMaxInts_lt t
  have h2 := getMaxInts_lt t'
  have ht := getMaxSpi_toNat t
  have ht' := getMaxSpi_toNat t'
  unfold Advertised at h
  have ha := h (32 * (getMaxInts t).toNat)
  have hb := h (32 * (getMaxInts t').toNat)
  apply BitVec.eq_of_toNat_eq
  omega

/-- the number of vCPUs does not show in the count if all its bits are set there anyway -/
theorem cpuNumber_iff :
    (∀ i, Advertised (vmIrqInit typer vcpuNum).gicdTyper i ↔ Advertised (vmIrqInit typer 1).gicdTyper i) ↔
      (getMaxInts typer + 1 ||| (vcpuNum - 1)) &&& 0x1f = (getMaxInts typer + 1) &&& 0x1f := by
  have h1 : getMaxInts (vmIrqInit typer 1).gicdTyper = (getMaxInts typer + 1) &&& 0x1f := by
    rw [gicdTyper_ints, show (1 - 1 : BitVec 32) = 0#32 from rfl, BitVec.or_zero]
  rw [← h1, ← gicdTyper_ints]
  refine ⟨advertised_inj, fun h i => ?_⟩
  unfold Advertised
  rw [getMaxSpi_toNat, getMaxSpi_toNat, h]

/-- **Interrupt numbers.**  What a guest is told is never what `get_virq` accepts: one is a multiple of 32, or 1020,
and the other is 63 more than one. -/
theorem intids_never_agree (cfg : VgicConfig) (typer vcpuNum : BitVec 32) (v : VcpuId) :
    ¬ IntidsAgree cfg typer vcpuNum v := by
  intro h
  have hspi := getMaxSpi_toNat (vmIrqInit typer vcpuNum).gicdTyper
  have hlast := (h.accepted (32 * (getMaxInts typer).toNat + 62)).mpr ((accepted_iff _).mpr (by lia))
  have hnext : ¬ Advertised (vmIrqInit typer vcpuNum).gicdTyper (32 * (getMaxInts typer).toNat + 63) := by
    rw [h.accepted, accepted_iff]
    lia
  unfold Advertised at hlast hnext
  lia

end

/-- **64 interrupts, one vCPU.**  The guest is told of INTID 95, which `get_virq` does not find. -/
theorem intids_agree_fails : ¬ ∀ (cfg : VgicConfig) (typer vcpuNum : BitVec 32) (v : VcpuId),
    IntidsAgree cfg typer vcpuNum v := by
  intro h
  let cfg : VgicConfig := ⟨fun _ => 1, 0, fun _ _ => none, 4, by decide, 1⟩
  have ha := (h cfg 1 1 ⟨0, 0⟩).accepted 95
  have h95 : Advertised (vmIrqInit 1 1).gicdTyper 95 := by
    unfold Advertised
    decide
  have hno := ha.mp h95
  unfold Accepted Vgic.getVirq at hno
  revert hno
  decide

end LkHv.VgicMmio
