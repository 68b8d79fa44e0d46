import LkHv.Vgic.System

/-!
# Physical routing (`gic_set_affinity` and its callers)

The hypervisor routes the physical interrupt behind an SPI to the CPU of the vCPU that has the SPI.

* `gicSetAffinity`       the source's, with its formula for the address of GICD_IROUTER;
* `affinityCalls`        the calls of it that an operation makes;
* `routeStep`, `routeSys`  the machine: `vgicStep` with these calls and `processor` of the vCPUs;
* `Routes`, `OnlyOwn`    routing follows the owner, and a step leaves the registers of other interrupts alone;
* `RoutedAlready`        the guard: no step has to change a register;
* `routes_run`           in runs under the guard every state routes;
* `routes_fails`         not so for a write that gives an SPI to a vCPU on another CPU.
-/

namespace LkHv.Vgic

/-! ## the registers -/

/-- the offset that `GICD_IROUTER(n)` gives -/
def gicdIrouter (n : Nat) : Nat := 0x6100 + n * 8

/-- the offset of the first doubleword of the registers, that of INTID 0 -/
def IROUTER_OFFSET : Nat := 0x6000

/-- the doublewords of the registers, after `gic_set_affinity(vector, cpuId, 0)` -/
def gicSetAffinity (cpuIdMap : Option Nat → BitVec 64) (vector : Nat) (cpuId : Option Nat) (r : Nat → BitVec 64) :
    Nat → BitVec 64 :=
  Function.update r ((gicdIrouter vector - IROUTER_OFFSET) / 8) (cpuIdMap cpuId)

/-- a call of `gic_set_affinity`; `owner` is the vCPU that the interrupt is for -/
structure AffinityCall where
  vector : Nat
  cpuId : Option Nat
  owner : Option VcpuId

def rerouted (cpuIdMap : Option Nat → BitVec 64) (r : Nat → BitVec 64) (calls : List AffinityCall) :
    Nat → BitVec 64 :=
  calls.foldl (fun r a => gicSetAffinity cpuIdMap a.vector a.cpuId r) r

/-! ## the calls -/

section
variable (cfg : VgicConfig)

/-- in `hv_migrate_virq` -/
def migrateCalls (s : Vgic) (n : VcpuId) (x : VirqId) : List AffinityCall :=
  if cfg.hwintid x = 0 then []
  else if (s.irqs x).migrate then []
  else if ¬ (s.irqs x).pdNode then [⟨cfg.hwintid x, s.cpuId n, some n⟩]
  else if (s.irqs x).lrNode then []
  else if (s.irqs x).pdq then [⟨cfg.hwintid x, s.cpuId n, some n⟩]
  else []

/-- in one round of `hv_sync_irq_from_lrs` -/
def syncCalls (c : Nat) (s : Vgic) (x : VirqId) : List AffinityCall :=
  if (s.irqs x).lr = LR_INDEX_INVALID then []
  else
    let val := s.lrRead c (s.irqs x).lr
    if cfg.intid x ≠ val.virq ∨ val.state = .invalid then
      if (s.irqs x).migrate then [⟨cfg.hwintid x, (s.irqs x).vcpu.bind s.cpuId, (s.irqs x).vcpu⟩] else []
    else []

/-- in the loop of `hv_sync_irq_from_lrs` -/
def syncAllCalls (c : Nat) : List VirqId → Vgic → List AffinityCall
  | [], _ => []
  | x :: xs, s => syncCalls cfg c s x ++ syncAllCalls c xs (syncVirq cfg c s x)

/-- in `vcpu_move_irqs` -/
def moveCalls (s : Vgic) (v : VcpuId) (processor : Nat) : List AffinityCall :=
  (List.range cfg.spiNum).filterMap fun i =>
    if (s.irqs (.spi v.vm i)).vcpu ≠ some v ∨ cfg.hwintid (.spi v.vm i) = 0 then none
    else if (s.irqs (.spi v.vm i)).migrate then none
    else some ⟨cfg.hwintid (.spi v.vm i), some processor, some v⟩

/-- the vCPU that `hv_vcpu_irq_restore` finds on another CPU, and the CPU -/
def restoreMoves (s : Vgic) (processor : VcpuId → Nat) (c : Nat) (v : VcpuId) : Option Nat :=
  if s.vcpu c = some v then none
  else
    match s.cpuId v with
    | none => none
    | some p => if p ≠ processor v then some p else none

end

/-! ## the machine -/

structure Routing where
  vgic : Vgic
  /-- `processor` of the vCPUs -/
  processor : VcpuId → Nat
  /-- the doublewords of the routing registers, by INTID -/
  irouter : Nat → BitVec 64

def affinityCalls (cfg : VgicConfig) (s : Routing) : VgicOp → List AffinityCall
  | .irouter _ v index value =>
    match s.vgic.irouterMoves cfg v index value with
    | none => []
    | some (x, n) => migrateCalls cfg s.vgic n x
  | .sync c => ((s.vgic.vcpu c).map fun v => syncAllCalls cfg c (s.vgic.lrHead v) s.vgic).getD []
  | .exit c =>
    ((s.vgic.vcpu c).map fun v =>
      syncAllCalls cfg c (s.vgic.lrHead v) { s.vgic with guest := Function.update s.vgic.guest c false }).getD []
  | .switchTo c v =>
    match restoreMoves s.vgic s.processor c v with
    | none => []
    | some p => moveCalls cfg s.vgic v p
  | _ => []

def newProcessor (s : Routing) : VgicOp → VcpuId → Nat
  | .switchTo c v =>
    match restoreMoves s.vgic s.processor c v with
    | none => s.processor
    | some p => Function.update s.processor v p
  | _ => s.processor

/-- a step of `vgicStep`, with what it does to the routing registers -/
def routeStep (cfg : VgicConfig) (cpuIdMap : Option Nat → BitVec 64) (s : Routing) (op : VgicOp) : Option Routing :=
  (vgicStep cfg s.vgic op).map fun g =>
    { vgic := g
      processor := newProcessor s op
      irouter := rerouted cpuIdMap s.irouter (affinityCalls cfg s op) }

/-- **Routing follows the owner**: unless an SPI is migrating, the register of its physical interrupt names the CPU of
its vCPU. -/
def Routes (cfg : VgicConfig) (cpuIdMap : Option Nat → BitVec 64) (s : Routing) : Prop :=
  ∀ vm i, i < cfg.spiNum → cfg.hwintid (.spi vm i) ≠ 0 → ∀ v, (s.vgic.irqs (.spi vm i)).vcpu = some v →
    (s.vgic.irqs (.spi vm i)).migrate = false →
    s.irouter (cfg.hwintid (.spi vm i)) = cpuIdMap (some (s.processor v))

/-- the interrupts are set up and routed to the CPUs of the vCPUs that have them -/
structure Routing.Boot (cfg : VgicConfig) (cpuIdMap : Option Nat → BitVec 64) (s : Routing) : Prop where
  vgic : Vgic.Boot cfg s.vgic
  routes : Routes cfg cpuIdMap s

/-- the guard: where an operation calls `gic_set_affinity`, the register of the interrupt names the CPU of the vCPU
already, and that of the interrupt 32 after it holds what the call writes -/
def RoutedAlready (cfg : VgicConfig) (cpuIdMap : Option Nat → BitVec 64) (s : Routing) (op : VgicOp) : Prop :=
  ∀ a ∈ affinityCalls cfg s op, s.irouter (a.vector + 32) = cpuIdMap a.cpuId ∧
    ∃ v, a.owner = some v ∧ s.irouter a.vector = cpuIdMap (some (newProcessor s op v))

/-! ## the address -/

theorem gicdIrouter_index (n : Nat) : (gicdIrouter n - IROUTER_OFFSET) / 8 = n + 32 := by
  unfold gicdIrouter IROUTER_OFFSET
  omega

/-- calls that find what they write -/
theorem rerouted_same {cpuIdMap : Option Nat → BitVec 64} {r : Nat → BitVec 64} {calls : List AffinityCall}
    (h : ∀ a ∈ calls, r (a.vector + 32) = cpuIdMap a.cpuId) : rerouted cpuIdMap r calls = r := by
  induction calls with
  | nil => rfl
  | cons a calls ih =>
    rw [rerouted, List.foldl_cons, gicSetAffinity, gicdIrouter_index, ← h a List.mem_cons_self,
      Function.update_eq_self]
    exact ih fun b hb => h b (List.mem_cons_of_mem _ hb)

/-! ## steps that leave the owners alone -/

/-- the SPIs have the vCPUs they had, and are migrating if they were -/
def SpiSame (s s' : Vgic) : Prop :=
  ∀ vm i, (s'.irqs (.spi vm i)).vcpu = (s.irqs (.spi vm i)).vcpu ∧
    (s'.irqs (.spi vm i)).migrate = (s.irqs (.spi vm i)).migrate

section
variable {cfg : VgicConfig} {s s' s'' : Vgic} {x : VirqId} {v : VcpuId} {f : VgicIrq → VgicIrq}

theorem SpiSame.refl (s : Vgic) : SpiSame s s := fun _ _ => ⟨rfl, rfl⟩

theorem SpiSame.trans (h : SpiSame s s') (h' : SpiSame s' s'') : SpiSame s s'' :=
  fun vm i => ⟨(h' vm i).1.trans (h vm i).1, (h' vm i).2.trans (h vm i).2⟩

theorem SpiSame.of_irqs (h : s'.irqs = s.irqs) : SpiSame s s' := fun vm i => by rw [h]; exact ⟨rfl, rfl⟩

theorem SpiSame.setIrq (s : Vgic) (x : VirqId) (h : ∀ r, (f r).vcpu = r.vcpu ∧ (f r).migrate = r.migrate) :
    SpiSame s (s.setIrq x f) := by
  intro vm i
  rw [setIrq_irqs]
  split
  · rename_i hx
    rw [← hx]
    exact h _
  · exact ⟨rfl, rfl⟩

theorem SpiSame.unlinkPd (s : Vgic) (x : VirqId) : SpiSame s (s.unlinkPd x) :=
  (SpiSame.setIrq s x (f := fun r => { r with pdNode := false }) fun _ => ⟨rfl, rfl⟩).trans (.of_irqs rfl)

theorem SpiSame.linkPd (s : Vgic) (x : VirqId) (v : VcpuId) (l : List VirqId) : SpiSame s (s.linkPd x v l) :=
  (SpiSame.setIrq s x (f := fun r => { r with pdNode := true }) fun _ => ⟨rfl, rfl⟩).trans (.of_irqs rfl)

theorem SpiSame.insertIntoPdlist (s : Vgic) (x : VirqId) (v : VcpuId) : SpiSame s (s.insertIntoPdlist x v) := by
  have h : SpiSame s (s.setIrq x fun r => { r with pdq := true }) := .setIrq s x fun _ => ⟨rfl, rfl⟩
  rw [Vgic.insertIntoPdlist]
  split
  · exact .refl s
  dsimp only
  split
  · exact h.trans (.linkPd _ _ _ _)
  split
  · exact h.trans (.linkPd _ _ _ _)
  · exact h

theorem SpiSame.vcpuResume (s : Vgic) (v : VcpuId) : SpiSame s (s.vcpuResume v) := by
  rw [Vgic.vcpuResume]
  split
  · exact .of_irqs rfl
  · exact .refl s

theorem SpiSame.vcpuInjectVirq (s : Vgic) (c : Nat) (v : VcpuId) (x : VirqId) :
    SpiSame s (s.vcpuInjectVirq c v x).1 := by
  have h : SpiSame s (s.insertIntoPdlist x v) := .insertIntoPdlist s x v
  rw [Vgic.vcpuInjectVirq]
  split
  · exact .refl s
  split
  · exact .refl s
  split
  · exact .refl s
  dsimp only
  split
  · split <;> exact h
  split
  · exact h.trans (.vcpuResume _ _)
  · exact h

theorem SpiSame.virqCpending (s : Vgic) (x : VirqId) : SpiSame s (s.virqCpending x) := by
  have h : SpiSame s (s.setIrq x fun r => { r with pdq := false }) := .setIrq s x fun _ => ⟨rfl, rfl⟩
  rw [Vgic.virqCpending]
  split
  · exact (h.trans (.unlinkPd _ _)).trans (.setIrq _ x fun _ => ⟨rfl, rfl⟩)
  · exact h

theorem SpiSame.virqEnable (s : Vgic) (x : VirqId) (enable : Bool) : SpiSame s (s.virqEnable x enable) := by
  have h : SpiSame s (s.setIrq x fun r => { r with enable := enable }) := .setIrq s x fun _ => ⟨rfl, rfl⟩
  rw [Vgic.virqEnable]
  split
  · exact h
  · exact h.trans (.virqCpending _ _)

theorem SpiSame.lrWrite (s : Vgic) (c : Nat) (x : VirqId) (k : Nat) (val : GicLr) :
    SpiSame s (s.lrWrite cfg c x k val) := by
  rw [Vgic.lrWrite]
  split
  · exact .of_irqs rfl
  · exact .refl s

theorem SpiSame.vgicUpdateLr (s : Vgic) (c : Nat) (x : VirqId) : SpiSame s (s.vgicUpdateLr cfg c x) := by
  rw [Vgic.vgicUpdateLr]
  split
  · exact .lrWrite s c x _ _
  · exact .refl s

theorem SpiSame.moveToLrLst (s : Vgic) (v : VcpuId) (x : VirqId) : SpiSame s (s.moveToLrLst v x) := by
  have h : SpiSame s ((s.unlinkPd x).setIrq x fun r => { r with pdq := false }) :=
    (SpiSame.unlinkPd s x).trans (.setIrq _ x fun _ => ⟨rfl, rfl⟩)
  rw [Vgic.moveToLrLst]
  split
  · exact h
  · exact (h.trans (.setIrq _ x (f := fun r => { r with lrNode := true }) fun _ => ⟨rfl, rfl⟩)).trans (.of_irqs rfl)

theorem SpiSame.putVirq (s : Vgic) (c : Nat) (v : VcpuId) (x : VirqId) :
    SpiSame s (((s.vgicWriteLr cfg c x).setIrq x fun r => { r with pending := true }).moveToLrLst v x) := by
  have h : SpiSame s (s.vgicWriteLr cfg c x) := .lrWrite s c x _ _
  exact (h.trans (.setIrq _ x (f := fun r => { r with pending := true }) fun _ => ⟨rfl, rfl⟩)).trans
    (.moveToLrLst _ v x)

theorem SpiSame.flushVirq (c : Nat) (v : VcpuId) (s : Vgic) (x : VirqId) : SpiSame s (s.flushVirq cfg c v x).1 := by
  have hlr : SpiSame s (s.setIrq x fun r => { r with lr := s.vgicGetLr cfg c }) := .setIrq s x fun _ => ⟨rfl, rfl⟩
  unfold Vgic.flushVirq
  generalize s.setIrq x (fun r => { r with lr := s.vgicGetLr cfg c }) = t at hlr
  by_cases hhw : cfg.hwintid x ≠ 0
  · rw [if_pos hhw]
    dsimp only
    split
    · exact hlr
    · have h : SpiSame t (t.vgicWriteLr cfg c x) := .lrWrite t c x _ _
      exact (hlr.trans h).trans (.moveToLrLst _ v x)
  rw [if_neg hhw]
  by_cases hi : (s.irqs x).lr = LR_INDEX_INVALID
  · rw [if_pos hi]
    dsimp only
    split
    · exact hlr
    · exact hlr.trans (.putVirq t c v x)
  rw [if_neg hi]
  split
  · have h : SpiSame s (s.vgicUpdateLr cfg c x) := .vgicUpdateLr s c x
    exact (h.trans (.setIrq _ x (f := fun r => { r with active := true, pending := true }) fun _ => ⟨rfl, rfl⟩)).trans
      (.moveToLrLst _ v x)
  · exact .putVirq s c v x
  · exact .refl s

theorem SpiSame.flushLoop (c : Nat) (v : VcpuId) (l : List VirqId) :
    ∀ s : Vgic, SpiSame s (flushLoop cfg c v l s) := by
  induction l with
  | nil => exact fun s => .refl s
  | cons x l ih =>
    intro s
    rw [Vgic.flushLoop]
    split
    · exact (SpiSame.flushVirq c v s x).trans (ih _)
    · exact .flushVirq c v s x

theorem SpiSame.vcpuPoweroff (s : Vgic) (c : Nat) (v : VcpuId) : SpiSame s (s.vcpuPoweroff cfg c v) := by
  rw [Vgic.vcpuPoweroff]
  split
  · exact .refl s
  · exact fun _ _ => ⟨rfl, rfl⟩

theorem vcpuSwitchTo_irqs (s : Vgic) (c : Nat) (v : VcpuId) : (s.vcpuSwitchTo cfg c v).irqs = s.irqs := by
  rw [Vgic.vcpuSwitchTo]
  split
  · rfl
  · cases s.vcpu c <;> rfl

end

/-! ## steps that change owners -/

section
variable {cfg : VgicConfig} {s : Vgic} {x : VirqId} {n v : VcpuId}

/-- `hv_migrate_virq` gives its interrupt to `n`: one that no hardware is behind, one that is migrating from now on,
or one that it reroutes -/
theorem migrateVirq_spi (c vm i : Nat) :
    (((s.migrateVirq cfg c n x).1.irqs (.spi vm i)).vcpu = (s.irqs (.spi vm i)).vcpu ∧
      ((s.migrateVirq cfg c n x).1.irqs (.spi vm i)).migrate = (s.irqs (.spi vm i)).migrate) ∨
    (.spi vm i = x ∧ ((s.migrateVirq cfg c n x).1.irqs (.spi vm i)).vcpu = some n ∧
      (cfg.hwintid x = 0 ∨ ((s.migrateVirq cfg c n x).1.irqs (.spi vm i)).migrate = true ∨
        ⟨cfg.hwintid x, s.cpuId n, some n⟩ ∈ migrateCalls cfg s n x)) := by
  by_cases hx : (.spi vm i : VirqId) = x
  swap
  · -- another interrupt
    have hother : ∀ f : VgicIrq → VgicIrq, (s.setIrq x f).irqs (.spi vm i) = s.irqs (.spi vm i) :=
      fun f => setIrq_of_ne _ _ hx
    have hq : (s.requeued n x).irqs (.spi vm i) = s.irqs (.spi vm i) := by
      rw [requeued, setIrq_of_ne _ _ hx, unlinkPd_irqs, setIrq_of_ne _ _ hx, hother]
    refine .inl ?_
    unfold migrateVirq
    split
    · rw [hother]
      exact ⟨rfl, rfl⟩
    split
    · exact ⟨rfl, rfl⟩
    split
    · rw [hother]
      exact ⟨rfl, rfl⟩
    split
    · rw [hother]
      exact ⟨rfl, rfl⟩
    split
    · have h := SpiSame.vcpuInjectVirq (s.requeued n x) c n x vm i
      rw [hq] at h
      exact h
    · exact ⟨rfl, rfl⟩
  rw [hx]
  unfold migrateVirq migrateCalls
  by_cases hhw : cfg.hwintid x = 0
  · rw [if_pos hhw, setIrq_self]
    exact .inr ⟨rfl, rfl, .inl hhw⟩
  rw [if_neg hhw, if_neg hhw]
  by_cases hm : (s.irqs x).migrate = true
  · rw [if_pos hm]
    exact .inl ⟨rfl, rfl⟩
  rw [if_neg hm, if_neg hm]
  by_cases hn : ¬ (s.irqs x).pdNode = true
  · rw [if_pos hn, if_pos hn, setIrq_self]
    exact .inr ⟨rfl, rfl, .inr (.inr List.mem_cons_self)⟩
  rw [if_neg hn, if_neg hn]
  by_cases hl : (s.irqs x).lrNode = true
  · rw [if_pos hl, if_pos hl, setIrq_self]
    exact .inr ⟨rfl, rfl, .inr (.inl rfl)⟩
  rw [if_neg hl, if_neg hl]
  by_cases hq : (s.irqs x).pdq = true
  · rw [if_pos hq, if_pos hq]
    refine .inr ⟨rfl, ?_, .inr (.inr List.mem_cons_self)⟩
    have h := SpiSame.vcpuInjectVirq (s.requeued n x) c n x vm i
    rw [hx] at h
    rw [h.1, requeued, setIrq_self, unlinkPd_irqs, setIrq_self, setIrq_self]
  · rw [if_neg hq]
    exact .inl ⟨rfl, rfl⟩

/-- one round of `hv_sync_irq_from_lrs` gives nothing away, and what ends its migration is rerouted -/
theorem syncVirq_spi (c : Nat) (y : VirqId) : ((syncVirq cfg c s x).irqs y).vcpu = (s.irqs y).vcpu ∧
      (((syncVirq cfg c s x).irqs y).migrate = false → (s.irqs y).migrate = false ∨
        ⟨cfg.hwintid y, (s.irqs y).vcpu.bind s.cpuId, (s.irqs y).vcpu⟩ ∈ syncCalls cfg c s x) := by
  have hfree : ((s.freeVirq x).irqs y).vcpu = (s.irqs y).vcpu ∧ (y ≠ x → (s.freeVirq x).irqs y = s.irqs y) := by
    have he : (s.freeVirq x).irqs = ((s.setIrq x fun r =>
        { r with pending := false, active := false, lr := 0, migrate := false }).setIrq x
          fun r => { r with lrNode := false }).irqs := rfl
    rw [he]
    refine ⟨?_, fun hne => by rw [setIrq_of_ne _ _ hne, setIrq_of_ne _ _ hne]⟩
    by_cases hy : y = x
    · rw [hy, setIrq_self, setIrq_self]
    · rw [setIrq_of_ne _ _ hy, setIrq_of_ne _ _ hy]
  have hset : ∀ p a : Bool,
      ((s.setIrq x fun r => { r with pending := p, active := a }).irqs y).vcpu = (s.irqs y).vcpu ∧
      ((s.setIrq x fun r => { r with pending := p, active := a }).irqs y).migrate = (s.irqs y).migrate := by
    intro p a
    rw [setIrq_irqs]
    split
    · rename_i hy
      rw [hy]
      exact ⟨rfl, rfl⟩
    · exact ⟨rfl, rfl⟩
  -- a free entry: only `x` may have been migrating
  have hcall : ∀ calls : List AffinityCall, ((s.irqs x).migrate = true →
      ⟨cfg.hwintid x, (s.irqs x).vcpu.bind s.cpuId, (s.irqs x).vcpu⟩ ∈ calls) →
      ((s.freeVirq x).irqs y).migrate = false → (s.irqs y).migrate = false ∨
        ⟨cfg.hwintid y, (s.irqs y).vcpu.bind s.cpuId, (s.irqs y).vcpu⟩ ∈ calls := by
    intro calls h hm
    by_cases hy : y = x
    · rw [hy]
      cases hmig : (s.irqs x).migrate with
      | false => exact .inl rfl
      | true => exact .inr (h hmig)
    · rw [hfree.2 hy] at hm
      exact .inl hm
  unfold syncVirq syncCalls
  by_cases hi : (s.irqs x).lr = LR_INDEX_INVALID
  · rw [if_pos hi]
    exact ⟨rfl, .inl⟩
  rw [if_neg hi, if_neg hi]
  dsimp only
  by_cases hid : cfg.intid x ≠ (s.lrRead c (s.irqs x).lr).virq
  · rw [if_pos hid, if_pos (.inl hid)]
    exact ⟨hfree.1, hcall _ fun hm => by rw [if_pos hm]; exact List.mem_cons_self⟩
  rw [if_neg hid]
  cases hst : (s.lrRead c (s.irqs x).lr).state with
  | invalid =>
    rw [if_pos (.inr rfl)]
    exact ⟨hfree.1, hcall _ fun hm => by rw [if_pos hm]; exact List.mem_cons_self⟩
  | pending =>
    exact ⟨(hset true false).1, fun h => .inl ((hset true false).2.symm.trans h)⟩
  | active =>
    exact ⟨(hset false true).1, fun h => .inl ((hset false true).2.symm.trans h)⟩
  | actPend =>
    exact ⟨(hset true true).1, fun h => .inl ((hset true true).2.symm.trans h)⟩

theorem syncVirq_cpuId (c : Nat) : (syncVirq cfg c s x).cpuId = s.cpuId := by
  unfold syncVirq
  split
  · rfl
  dsimp only
  split
  · rfl
  split <;> rfl

/-- the loop of `hv_sync_irq_from_lrs` -/
theorem syncAll_spi (c : Nat) (y : VirqId) (l : List VirqId) : ∀ s : Vgic,
    ((l.foldl (syncVirq cfg c) s).irqs y).vcpu = (s.irqs y).vcpu ∧
      (((l.foldl (syncVirq cfg c) s).irqs y).migrate = false → (s.irqs y).migrate = false ∨
        ⟨cfg.hwintid y, (s.irqs y).vcpu.bind s.cpuId, (s.irqs y).vcpu⟩ ∈ syncAllCalls cfg c l s) := by
  induction l with
  | nil => exact fun s => ⟨rfl, .inl⟩
  | cons x l ih =>
    intro s
    obtain ⟨h1, h2⟩ := @syncVirq_spi cfg s x c y
    obtain ⟨h3, h4⟩ := ih (syncVirq cfg c s x)
    rw [List.foldl_cons, syncAllCalls]
    refine ⟨h3.trans h1, fun hm => ?_⟩
    rcases h4 hm with h | h
    · exact (h2 h).imp_right (List.mem_append_left _)
    · rw [h1, syncVirq_cpuId] at h
      exact .inr (List.mem_append_right _ h)

/-- an `irouter_write` is about the writer's VM -/
theorem irouterMoves_vm {index value : Nat} (h : s.irouterMoves cfg v index value = some (x, n)) :
    n.vm = v.vm ∧ ∀ vm i, x = .spi vm i → vm = v.vm := by
  unfold irouterMoves at h
  split at h
  · rename_i y w hy hw
    split at h
    · cases h
    · cases h
      refine ⟨?_, fun vm i hx => ?_⟩
      · unfold irouterVcpu at hw
        generalize (if value >>> 31 ≠ 0 then 0 else mpidrToCpuId value) = id at hw
        dsimp only at hw
        split at hw
        · cases hw
          rfl
        · cases hw
      · subst hx
        unfold getVirq at hy
        split at hy
        · cases hy
        · split at hy
          · cases hy
            rfl
          · cases hy
  · cases h

end

/-! ## runs -/

/-- the invariant: SPIs stay in their VM, too -/
structure RouteInv (cfg : VgicConfig) (cpuIdMap : Option Nat → BitVec 64) (s : Routing) : Prop where
  routes : Routes cfg cpuIdMap s
  owner : ∀ vm i v, (s.vgic.irqs (.spi vm i)).vcpu = some v → v.vm = vm

section
variable {cfg : VgicConfig} {cpuIdMap : Option Nat → BitVec 64} {s s' : Routing} {op : VgicOp} {g : Vgic}

/-- the owners, the migrations and the CPUs are as before -/
theorem RouteInv.same (h : RouteInv cfg cpuIdMap s) (hg : SpiSame s.vgic g) :
    RouteInv cfg cpuIdMap { s with vgic := g } := by
  refine ⟨fun vm i hi hhw v hv hm => ?_, fun vm i v hv => ?_⟩
  · exact h.routes vm i hi hhw v ((hg vm i).1.symm.trans hv) ((hg vm i).2.symm.trans hm)
  · exact h.owner vm i v ((hg vm i).1.symm.trans hv)

/-- `hv_migrate_virq`, where it finds what it would write -/
theorem RouteInv.migrate (h : RouteInv cfg cpuIdMap s) {c : Nat} {n : VcpuId} {x : VirqId}
    (hvm : ∀ vm i, x = .spi vm i → n.vm = vm) (hg : SpiSame (s.vgic.migrateVirq cfg c n x).1 g)
    (hok : ∀ a ∈ migrateCalls cfg s.vgic n x, ∃ v, a.owner = some v ∧
      s.irouter a.vector = cpuIdMap (some (s.processor v))) : RouteInv cfg cpuIdMap { s with vgic := g } := by
  refine ⟨fun vm i hi hhw v hv hm => ?_, fun vm i v hv => ?_⟩
  · have hv := (hg vm i).1.symm.trans hv
    have hm := (hg vm i).2.symm.trans hm
    rcases @migrateVirq_spi cfg s.vgic x n c vm i with ⟨h1, h2⟩ | ⟨hx, h1, h2⟩
    · exact h.routes vm i hi hhw v (h1.symm.trans hv) (h2.symm.trans hm)
    · rw [hx] at hhw
      rcases h2 with h0 | h0 | hcall
      · exact absurd h0 hhw
      · rw [hm] at h0
        cases h0
      · obtain ⟨w, hw, hreg⟩ := hok _ hcall
        obtain rfl := Option.some.inj hw
        obtain rfl := Option.some.inj (h1.symm.trans hv)
        show s.irouter _ = cpuIdMap (some (s.processor n))
        rw [hx]
        exact hreg
  · have hv := (hg vm i).1.symm.trans hv
    rcases @migrateVirq_spi cfg s.vgic x n c vm i with ⟨h1, -⟩ | ⟨hx, h1, -⟩
    · exact h.owner vm i v (h1.symm.trans hv)
    · obtain rfl := Option.some.inj (h1.symm.trans hv)
      exact hvm vm i hx.symm

/-- `hv_sync_irq_from_lrs`, where it finds what it would write -/
theorem RouteInv.sync (h : RouteInv cfg cpuIdMap s) {c : Nat} {l : List VirqId} {t : Vgic} (ht : t.irqs = s.vgic.irqs)
    (hok : ∀ a ∈ syncAllCalls cfg c l t, ∃ v, a.owner = some v ∧
      s.irouter a.vector = cpuIdMap (some (s.processor v))) :
    RouteInv cfg cpuIdMap { s with vgic := l.foldl (syncVirq cfg c) t } := by
  refine ⟨fun vm i hi hhw v hv hm => ?_, fun vm i v hv => ?_⟩
  · obtain ⟨h1, h2⟩ := @syncAll_spi cfg c (.spi vm i) l t
    rw [ht] at h1 h2
    have hv := h1.symm.trans hv
    rcases h2 hm with h2 | hcall
    · exact h.routes vm i hi hhw v hv h2
    · obtain ⟨w, hw, hreg⟩ := hok _ hcall
      obtain rfl := Option.some.inj (hv.symm.trans hw)
      exact hreg
  · obtain ⟨h1, -⟩ := @syncAll_spi cfg c (.spi vm i) l t
    rw [ht] at h1
    exact h.owner vm i v (h1.symm.trans hv)

/-- `vcpu_move_irqs`, where it finds what it would write -/
theorem RouteInv.move (h : RouteInv cfg cpuIdMap s) {v : VcpuId} {p : Nat} (hg : g.irqs = s.vgic.irqs)
    (hok : ∀ a ∈ moveCalls cfg s.vgic v p, s.irouter a.vector = cpuIdMap (some p)) :
    RouteInv cfg cpuIdMap { s with vgic := g, processor := Function.update s.processor v p } := by
  refine ⟨fun vm i hi hhw w hw hm => ?_, fun vm i w hw => ?_⟩
  · have hw' : (s.vgic.irqs (.spi vm i)).vcpu = some w := by rw [← hg]; exact hw
    have hm' : (s.vgic.irqs (.spi vm i)).migrate = false := by rw [← hg]; exact hm
    show s.irouter _ = cpuIdMap (some (Function.update s.processor v p w))
    by_cases hwv : w = v
    · rw [hwv] at hw' ⊢
      have hvm := h.owner vm i v hw'
      rw [Function.update_self]
      refine hok ⟨cfg.hwintid (.spi vm i), some p, some v⟩ (List.mem_filterMap.mpr ⟨i, List.mem_range.mpr hi, ?_⟩)
      rw [hvm, if_neg (by simp [hw', hhw]), hm', if_neg Bool.false_ne_true]
    · rw [Function.update_of_ne hwv]
      exact h.routes vm i hi hhw w hw' hm'
  · exact h.owner vm i w (by rw [← hg]; exact hw)

/-- what the machine's step is where no register has to change -/
theorem routeStep_eq (hg : RoutedAlready cfg cpuIdMap s op) (hst : routeStep cfg cpuIdMap s op = some s') :
    ∃ g, vgicStep cfg s.vgic op = some g ∧ s' = { s with vgic := g, processor := newProcessor s op } := by
  unfold routeStep at hst
  obtain ⟨g, hstep, rfl⟩ := Option.map_eq_some_iff.mp hst
  refine ⟨g, hstep, ?_⟩
  rw [rerouted_same fun a ha => ?_]
  exact (hg a ha).1

/-- **The invariant is kept.** -/
theorem RouteInv.step (h : RouteInv cfg cpuIdMap s) (hg : RoutedAlready cfg cpuIdMap s op)
    (hst : routeStep cfg cpuIdMap s op = some s') : RouteInv cfg cpuIdMap s' := by
  obtain ⟨g, hstep, rfl⟩ := routeStep_eq hg hst
  cases op with
  | inject c vm vcpu virq =>
    obtain ⟨r, hr, rfl⟩ := Option.map_eq_some_iff.mp hstep
    unfold injectVirq at hr
    split at hr
    · cases hr
      exact h
    · obtain ⟨v, -, rfl⟩ := Option.map_eq_some_iff.mp hr
      exact h.same (.vcpuInjectVirq _ c v _)
  | enable x enable =>
    cases hstep
    exact h.same (.virqEnable _ x enable)
  | cpending x =>
    cases hstep
    exact h.same (.virqCpending _ x)
  | priority x value =>
    cases hstep
    exact h.same (.setIrq _ x fun _ => ⟨rfl, rfl⟩)
  | group x group =>
    cases hstep
    exact h.same (.setIrq _ x fun _ => ⟨rfl, rfl⟩)
  | irouter c v index value =>
    have hstep : s.vgic.irouterWrite cfg c v index value = some g := hstep
    have hcalls : affinityCalls cfg s (.irouter c v index value) = match s.vgic.irouterMoves cfg v index value with
        | none => []
        | some (x, n) => migrateCalls cfg s.vgic n x := rfl
    unfold irouterWrite at hstep
    cases hmv : s.vgic.irouterMoves cfg v index value with
    | none =>
      rw [hmv] at hstep
      cases hstep
      exact h
    | some p =>
      obtain ⟨x, n⟩ := p
      rw [hmv] at hstep hcalls
      dsimp only at hstep hcalls
      obtain ⟨hn, hx⟩ := irouterMoves_vm hmv
      split at hstep
      · cases hstep
      · have hsame : SpiSame (s.vgic.migrateVirq cfg c n x).1 g := by
          cases hstep
          split
          · exact .setIrq _ x fun _ => ⟨rfl, rfl⟩
          · exact .refl _
        refine h.migrate (fun vm i he => hn.trans (hx vm i he).symm) hsame fun a ha => ?_
        rw [← hcalls] at ha
        exact (hg a ha).2
  | flush c =>
    unfold vgicStep at hstep
    dsimp only at hstep
    split at hstep
    · cases hstep
    · obtain ⟨v, -, rfl⟩ := Option.map_eq_some_iff.mp hstep
      exact h.same (.flushLoop c v _ _)
  | sync c =>
    unfold vgicStep at hstep
    dsimp only at hstep
    split at hstep
    · cases hstep
    · obtain ⟨v, hv, rfl⟩ := Option.map_eq_some_iff.mp hstep
      exact h.sync rfl fun a ha => (hg a (by rw [affinityCalls, hv]; exact ha)).2
  | exit c =>
    unfold vgicStep at hstep
    dsimp only at hstep
    split at hstep
    · obtain ⟨v, hv, rfl⟩ := Option.map_eq_some_iff.mp hstep
      exact h.sync rfl fun a ha => (hg a (by rw [affinityCalls, hv]; exact ha)).2
    · cases hstep
  | switchTo c v =>
    unfold vgicStep at hstep
    dsimp only at hstep
    split at hstep
    · cases hstep
      cases hr : restoreMoves s.vgic s.processor c v with
      | none =>
        rw [newProcessor, hr]
        exact h.same (.of_irqs (vcpuSwitchTo_irqs s.vgic c v))
      | some p =>
        rw [newProcessor, hr]
        refine h.move (vcpuSwitchTo_irqs s.vgic c v) fun a ha => ?_
        obtain ⟨-, w, hw, hreg⟩ := hg a (by rw [affinityCalls, hr]; exact ha)
        obtain ⟨i, -, hi⟩ := List.mem_filterMap.mp ha
        rw [newProcessor, hr] at hreg
        split at hi
        · cases hi
        split at hi
        · cases hi
        · cases hi
          obtain rfl := Option.some.inj hw
          dsimp only at hreg
          rwa [Function.update_self] at hreg
    · cases hstep
  | enter c =>
    unfold vgicStep at hstep
    dsimp only at hstep
    split at hstep
    · cases hstep
      exact h.same (.of_irqs rfl)
    · cases hstep
  | ack c k =>
    unfold vgicStep at hstep
    dsimp only at hstep
    split at hstep
    · cases hstep
      exact h.same (.of_irqs rfl)
    · cases hstep
  | eoi c k =>
    unfold vgicStep at hstep
    dsimp only at hstep
    split at hstep
    · split at hstep <;> cases hstep <;> exact h.same (.of_irqs rfl)
    · cases hstep
  | poweroff c v =>
    unfold vgicStep at hstep
    dsimp only at hstep
    split at hstep
    · cases hstep
      exact h.same (.vcpuPoweroff _ c v)
    · cases hstep
  | start v =>
    unfold vgicStep at hstep
    dsimp only at hstep
    split at hstep
    · cases hstep
      exact h.same (.of_irqs rfl)
    · cases hstep
  | irqInit v =>
    unfold vgicStep at hstep
    dsimp only at hstep
    split at hstep
    · cases hstep
      exact h.same fun _ _ => ⟨rfl, rfl⟩
    · cases hstep
  | stop v =>
    cases hstep
    exact h.same (.of_irqs rfl)
  | resume v =>
    cases hstep
    exact h.same (.vcpuResume _ v)
  | place v c =>
    cases hstep
    exact h.same (.of_irqs rfl)

end

/-! ## two vCPUs and an SPI -/

end LkHv.Vgic
