import LkHv.Vgic.Write

/-!
# Routing writes (`vgic_mmio.c`, `hv_vgic.c`)

`GICD_IROUTER` begins with the register of INTID 32.  `dist_mmio_write` counts the registers from there, and
`irouter_write` takes the count for an INTID: the register of SPI `n` is that of the interrupt `n - 32`.

* `irouterOff`          the offset of `GICD_IROUTER<n>`;
* `RoutesOnly`          a write to it is about SPI `n` only;
* `Unmoved`             the interrupt `n - 32` stays as it is;
* `irouter_local`       exactly when `RoutesOnly` holds;
* `irouter_local_fails` a write for SPI 32 gives SGI 0 to another vCPU.
-/

namespace LkHv.VgicMmio
open Trap

/-- the offset of `GICD_IROUTER<n>` -/
def irouterOff (n : Nat) : Nat := 0x6000 + 8 * n

/-- the write returns, and what is routed elsewhere is SPI `n` -/
def RoutesOnly (g : Gic) (vm : Nat) (base gpa : Reg) (len : Nat) (data : Reg) (n : Nat) : Prop :=
  ∃ g', distMmioWrite g vm base gpa len data = some g' ∧
    (∀ y, y ≠ .spi g.vcpu.vm (n - 32) → (g'.vgic.irqs y).vcpu = (g.vgic.irqs y).vcpu ∧
      (g'.vgic.irqs y).iroute = (g.vgic.irqs y).iroute) ∧
    (g.getVirq g.vcpu n = none → g' = g)

/-- The interrupt `n - 32` does not exist, or the vCPU does not; it has that route or that vCPU; or it is a hardware
interrupt linked in a pending list, with `pdq` clear and in no list register. -/
def Unmoved (g : Gic) (n value : Nat) : Prop :=
  ∀ x w, g.getVirq g.vcpu (n - 32) = some x → Vgic.irouterVcpu g.cfg g.vcpu.vm value = some w →
    (g.vgic.irqs x).iroute = value ∨ (g.vgic.irqs x).vcpu = some w ∨
      g.cfg.hwintid x ≠ 0 ∧ (g.vgic.irqs x).vcpu ≠ none ∧ (g.vgic.irqs x).migrate = false ∧
        (g.vgic.irqs x).pdNode = true ∧ (g.vgic.irqs x).lrNode = false ∧ (g.vgic.irqs x).pdq = false

section
variable {g : Gic} {x : VirqId} {w : VcpuId} {n : Nat}

theorem distMmioWrite_irouter {vm len : Nat} {base gpa data : Reg} (h32 : 32 ≤ n) (h : n < 1020)
    (hoff : offset gpa base = irouterOff n) :
    distMmioWrite g vm base gpa len data = irouterWrite g g.vcpu (n - 32) data := by
  have hi : irouterOff n = 0x6000 + 8 * n := rfl
  unfold distMmioWrite
  dsimp only
  rw [hoff, hi, if_neg (by lia), if_neg (by lia), if_neg (by lia), if_neg (by lia), if_neg (by lia),
    if_neg (by lia), if_neg (by lia), if_neg (by lia), if_pos (by lia), Nat.shiftRight_eq_div_pow]
  congr 1
  lia

/-- the interrupt that is written is not the one of the register -/
theorem getVirq_ne (hx : g.getVirq g.vcpu (n - 32) = some x) : x ≠ .spi g.vcpu.vm (n - 32) := by
  rintro rfl
  unfold Gic.getVirq Vgic.getVirq at hx
  split at hx
  · cases hx
  · split at hx
    · rename_i hi _
      have h := (VirqId.spi.inj (Option.some.inj hx)).2
      rw [show GIC_BASE_SPI = 32 from rfl] at h hi
      omega
    · cases hx

/-- an injection gives no interrupt away -/
theorem vcpuInjectVirq_vcpu (s : Vgic) (c : Nat) (v : VcpuId) (x y : VirqId) :
    ((s.vcpuInjectVirq c v x).1.irqs y).vcpu = (s.irqs y).vcpu := by
  rcases Vgic.vcpuInjectVirq_cases s c v x with ⟨h, -⟩ | ⟨-, -, -, h, -⟩
  · exact h.vcpu y
  · rw [h.vcpu]
    rcases Vgic.insertIntoPdlist_cases s x v with ⟨-, e⟩ | ⟨-, -, hq⟩ | ⟨-, -, hm⟩
    · rw [e]
    · exact hq.vcpu y
    · exact hm.vcpu y

/-- queued in a way that `hv_migrate_virq` does not know -/
theorem migrateVirq_same {cfg : VgicConfig} {s : Vgic} (c : Nat) (w : VcpuId) (hhw : cfg.hwintid x ≠ 0)
    (hm : (s.irqs x).migrate = false) (hn : (s.irqs x).pdNode = true) (hl : (s.irqs x).lrNode = false)
    (hq : (s.irqs x).pdq = false) : s.migrateVirq cfg c w x = (s, 0) := by
  unfold Vgic.migrateVirq
  rw [if_neg hhw, hm, if_neg Bool.false_ne_true, hn, if_neg (not_not.mpr rfl), hl, if_neg Bool.false_ne_true, hq,
    if_neg Bool.false_ne_true]

/-- `hv_migrate_virq` gives the interrupt away, unless it is migrating already or queued in that way -/
theorem migrateVirq_vcpu (cfg : VgicConfig) (s : Vgic) (c : Nat) (w : VcpuId) (x : VirqId) :
    ((s.migrateVirq cfg c w x).2 = 0 ∧ ((s.migrateVirq cfg c w x).1.irqs x).vcpu = some w) ∨
      (cfg.hwintid x ≠ 0 ∧ (s.irqs x).migrate = true ∧ (s.migrateVirq cfg c w x).2 < 0) ∨
      (cfg.hwintid x ≠ 0 ∧ (s.irqs x).migrate = false ∧ (s.irqs x).pdNode = true ∧ (s.irqs x).lrNode = false ∧
        (s.irqs x).pdq = false) := by
  unfold Vgic.migrateVirq
  by_cases hhw : cfg.hwintid x = 0
  · rw [if_pos hhw]
    dsimp only
    rw [Vgic.setIrq_self]
    exact .inl ⟨rfl, rfl⟩
  rw [if_neg hhw]
  by_cases hm : (s.irqs x).migrate = true
  · rw [if_pos hm]
    exact .inr (.inl ⟨hhw, hm, show (-1 : Int) < 0 by decide⟩)
  rw [if_neg hm]
  by_cases hn : (s.irqs x).pdNode = true
  · rw [if_neg (not_not.mpr hn)]
    by_cases hl : (s.irqs x).lrNode = true
    · rw [if_pos hl]
      dsimp only
      rw [Vgic.setIrq_self]
      exact .inl ⟨rfl, rfl⟩
    rw [if_neg hl]
    by_cases hq : (s.irqs x).pdq = true
    · rw [if_pos hq]
      refine .inl ⟨rfl, ?_⟩
      dsimp only
      rw [vcpuInjectVirq_vcpu, (Vgic.unqueued_requeued s w x).vcpu, Vgic.setIrq_self]
    · rw [if_neg hq]
      exact .inr (.inr ⟨hhw, by simpa using hm, hn, by simpa using hl, by simpa using hq⟩)
  · rw [if_pos hn]
    dsimp only
    rw [Vgic.setIrq_self]
    exact .inl ⟨rfl, rfl⟩

/-- **Routing writes.**  A write to `GICD_IROUTER<n>` is about SPI `n` only if and only if the interrupt `n - 32`
stays as it is. -/
theorem irouter_local (g : Gic) (vm : Nat) (base gpa : Reg) (len : Nat) (data : Reg) (n : Nat) (h32 : 32 ≤ n)
    (h : n < 1020) (hoff : offset gpa base = irouterOff n) :
    RoutesOnly g vm base gpa len data n ↔ Unmoved g n data.toNat := by
  unfold RoutesOnly
  rw [distMmioWrite_irouter h32 h hoff]
  unfold irouterWrite Vgic.irouterWrite
  have hkeep : ∀ {r : Option Vgic}, r = some g.vgic → ∃ g', r.map (fun s => { g with vgic := s }) = some g' ∧
      (∀ y, y ≠ .spi g.vcpu.vm (n - 32) → (g'.vgic.irqs y).vcpu = (g.vgic.irqs y).vcpu ∧
        (g'.vgic.irqs y).iroute = (g.vgic.irqs y).iroute) ∧ (g.getVirq g.vcpu n = none → g' = g) := by
    intro r hr
    rw [hr]
    exact ⟨g, rfl, fun _ _ => ⟨rfl, rfl⟩, fun _ => rfl⟩
  cases hmv : g.vgic.irouterMoves g.cfg g.vcpu (n - 32) data.toNat with
  | none =>
    refine iff_of_true (hkeep rfl) fun x w hx hw => ?_
    unfold Vgic.irouterMoves at hmv
    have hx' : Vgic.getVirq g.cfg g.vcpu.vm (some g.vcpu) (n - 32) = some x := hx
    rw [hx', hw] at hmv
    dsimp only at hmv
    split at hmv
    · rename_i hc
      exact hc.imp_right .inl
    · cases hmv
  | some p =>
    obtain ⟨x, w⟩ := p
    obtain ⟨hx, hw, hr, hv⟩ : g.getVirq g.vcpu (n - 32) = some x ∧
        Vgic.irouterVcpu g.cfg g.vcpu.vm data.toNat = some w ∧ (g.vgic.irqs x).iroute ≠ data.toNat ∧
        (g.vgic.irqs x).vcpu ≠ some w := by
      unfold Vgic.irouterMoves at hmv
      split at hmv
      · rename_i hx hw
        split at hmv
        · cases hmv
        · rename_i hc
          cases hmv
          exact ⟨hx, hw, fun e => hc (.inl e), fun e => hc (.inr e)⟩
      · cases hmv
    have hne := getVirq_ne hx
    dsimp only
    by_cases hnull : (g.vgic.irqs x).vcpu = none ∧ g.cfg.hwintid x ≠ 0
    · rw [if_pos hnull]
      refine iff_of_false (fun ⟨_, hg, _⟩ => by cases hg) fun hu => ?_
      rcases hu x w hx hw with e | e | ⟨-, e, -⟩
      · exact hr e
      · exact hv e
      · exact e hnull.1
    rw [if_neg hnull]
    rcases migrateVirq_vcpu g.cfg g.vgic g.cpu w x with ⟨h0, hgiven⟩ | ⟨hhw, hm, hneg⟩ | ⟨hhw, hm, hn, hl, hq⟩
    · -- the interrupt is given to another vCPU
      rw [if_neg (by omega)]
      refine iff_of_false (fun ⟨_, hg, hother, _⟩ => ?_) fun hu => ?_
      · cases hg
        exact hv ((hother x hne).1.symm.trans hgiven)
      · rcases hu x w hx hw with e | e | ⟨hhw, -, hm, hn, hl, hq⟩
        · exact hr e
        · exact hv e
        · rw [migrateVirq_same _ _ hhw hm hn hl hq] at hgiven
          exact hv hgiven
    · -- it is migrating: its route is stored
      rw [if_pos hneg]
      refine iff_of_false (fun ⟨_, hg, hother, _⟩ => ?_) fun hu => ?_
      · cases hg
        refine hr ((hother x hne).2.symm.trans ?_)
        dsimp only
        rw [Vgic.setIrq_self]
      · rcases hu x w hx hw with e | e | ⟨-, -, e, -⟩
        · exact hr e
        · exact hv e
        · rw [hm] at e
          cases e
    · rw [migrateVirq_same _ _ hhw hm hn hl hq, if_neg (show ¬ (0 : Int) < 0 by decide)]
      refine iff_of_true (hkeep rfl) fun x' w' hx' hw' => .inr (.inr ?_)
      cases hx.symm.trans hx'
      exact ⟨hhw, fun e => hnull ⟨e, hhw⟩, hm, hn, hl, hq⟩

end

/-- the register of SPI 33, for a vCPU that the VM does not have -/
theorem irouter_local_absent : offset 0x8006108 0x8000000 = irouterOff 33 ∧
    RoutesOnly idleGic 0 0x8000000 0x8006108 8 1 33 := by
  have hoff : offset 0x8006108 0x8000000 = irouterOff 33 := by decide
  refine ⟨hoff, (irouter_local idleGic 0 0x8000000 0x8006108 8 1 33 (by decide) (by decide) hoff).mpr ?_⟩
  intro x w _ hw
  have hno : Vgic.irouterVcpu idleGic.cfg idleGic.vcpu.vm (1 : Reg).toNat = none := by decide
  rw [hno] at hw
  cases hw

/-- **SPI 32.**  The write to its register gives SGI 0 to vCPU 1. -/
theorem irouter_local_fails : ¬ ∀ (g : Gic) (vm : Nat) (base gpa : Reg) (len : Nat) (data : Reg) (n : Nat), 32 ≤ n →
    n < 1020 → offset gpa base = irouterOff n → RoutesOnly g vm base gpa len data n := by
  intro h
  let g : Gic := { idleGic with cfg := { idleGic.cfg with vcpuNum := fun _ => 2 } }
  obtain ⟨g', hg, hother, -⟩ := h g 0 0x8000000 0x8006100 8 1 32 (by decide) (by decide) (by decide)
  have hv := (hother (.priv ⟨0, 0⟩ 0) (by decide)).1
  have hs : (distMmioWrite g 0 0x8000000 0x8006100 8 1).map (fun g' => (g'.vgic.irqs (.priv ⟨0, 0⟩ 0)).vcpu) =
      some (some ⟨0, 1⟩) := by decide
  rw [hg] at hs
  rw [Option.map_some, hv] at hs
  cases hs

end LkHv.VgicMmio
