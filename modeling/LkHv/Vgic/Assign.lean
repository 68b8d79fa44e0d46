import LkHv.Lib.Machine
import LkHv.Vgic.Irq

/-!
# Hardware interrupts given to guests (`hv_irq.c`, `hv_vgic.c`)

`hv_map_irq_to_guest` looks at neither number: what is wrong with the virq only `hv_vm_init_virq` sees, which
returns nothing, and there the last number let through is one too large.

* `mapIrqToGuest`, `vmInitVirqEntry`, `intHandler`   the source's;
* `IrqOp`, `irqSys`         the machine: mappings, starts of VMs and writes to `GICD_IROUTER`;
* `MapOk`                   an error that changes nothing, or a mapping that holds from then on;
* `MapWhen`                 the condition;
* `irq_assigned`            in runs that meet it every mapping is `MapOk`;
* `irq_assigned_fails`      a private virq is mapped and never injected.
-/

namespace LkHv

/-- the board: the vGIC, and `MAX_INT` of the platform -/
structure IrqConfig where
  vgic : VgicConfig
  maxInt : Nat
  maxInt_le : maxInt ≤ 0x3fe

/-- `struct virq_info` -/
structure VirqInfo where
  vm : Option Nat
  virq : Nat
  vcpu : Option VcpuId

/-- the fields of a `struct vgic_irq` that say what it is and whom it is for -/
structure VirqEntry where
  intid : Nat
  hwintid : Nat
  vcpu : Option VcpuId

/-- the entry `i` has its number if it has a physical interrupt -/
def VirqEntry.Numbered (e : VirqEntry) (i : Nat) : Prop := e.intid = if e.hwintid = 0 then 0 else 32 + i

structure IrqTables where
  irq2virq : Nat → VirqInfo
  /-- `spis` of the distributors -/
  spis : Nat → Nat → VirqEntry
  /-- the vectors with the handler `hv_int_handler` -/
  handler : Nat → Bool
  /-- monitor: something was written outside of the two arrays -/
  wild : Bool

namespace IrqTables

/-- after `hv_init_virq_info` and `hv_vm_irq_init` of every VM -/
def boot : IrqTables := ⟨fun _ => ⟨none, 0, none⟩, fun _ _ => ⟨0, 0, none⟩, fun _ => false, false⟩

def setEntry (s : IrqTables) (vm i : Nat) (e : VirqEntry) : IrqTables :=
  { s with spis := Function.update s.spis vm (Function.update (s.spis vm) i e) }

/-- `hv_vm_init_virq` -/
def vmInitVirqEntry (cfg : IrqConfig) (s : IrqTables) (vm virq irq : Nat) : IrqTables :=
  if virq < GIC_BASE_SPI then s
  else
    let index := virq - GIC_BASE_SPI
    if index > cfg.vgic.spiNum then s
    else { s.setEntry vm index ⟨virq, irq, some ⟨vm, 0⟩⟩ with wild := s.wild || decide (cfg.vgic.spiNum ≤ index) }

/-- `register_int_handler` of `hv_int_handler`; `none` is a `panic` -/
def registerIntHandler (cfg : IrqConfig) (s : IrqTables) (vector : Nat) : Option IrqTables :=
  if vector ≥ cfg.maxInt then none else some { s with handler := Function.update s.handler vector true }

/-- `hv_map_irq_to_guest` -/
def mapIrqToGuest (cfg : IrqConfig) (s : IrqTables) (vm virq irq : Nat) : Option (IrqTables × Int) :=
  if irq < GIC_BASE_SPI then some (s, ERR_NOT_FOUND)
  else
    let k := irq - GIC_BASE_SPI
    let s := { s with
      irq2virq := Function.update s.irq2virq k ⟨some vm, virq, (s.irq2virq k).vcpu⟩
      wild := s.wild || decide (cfg.vgic.spiNum ≤ k) }
    (s.registerIntHandler cfg irq).map fun s => (s.vmInitVirqEntry cfg vm virq irq, 0)

/-- `hv_inject_virq`: the interrupt and the vCPU that it passes on -/
def injectVirq (cfg : IrqConfig) (s : IrqTables) (vm : Nat) (vcpu : Option VcpuId) (virq : Nat) :
    Option (VirqId × VcpuId) :=
  match Vgic.getVirq cfg.vgic vm vcpu virq with
  | some (.spi vm i) => (vcpu.orElse fun _ => (s.spis vm i).vcpu).map fun v => (.spi vm i, v)
  | some (.priv w i) => vcpu.map fun v => (.priv w i, v)
  | none => none

/-- `hv_int_handler`, as called by `platform_irq` -/
def intHandler (cfg : IrqConfig) (s : IrqTables) (vector : Nat) : Option (VirqId × VcpuId) :=
  if vector ≥ 0x3fe ∨ s.handler vector = false ∨ vector < GIC_BASE_SPI then none
  else
    let info := s.irq2virq (vector - GIC_BASE_SPI)
    info.vm.bind fun vm => s.injectVirq cfg vm info.vcpu info.virq

/-! ## the machine -/

inductive IrqOp where
  /-- `hv_map_irq_to_guest` -/
  | map (vm virq irq : Nat)
  /-- `hv_vm_irq_init`, at every start of a VM -/
  | irqInit (vm : Nat)
  /-- the interrupt is routed to another vCPU, as `irouter_write` does -/
  | route (vm i id : Nat)

def irqStep (cfg : IrqConfig) (s : IrqTables) : IrqOp → Option IrqTables
  | .map vm virq irq => (s.mapIrqToGuest cfg vm virq irq).map Prod.fst
  | .irqInit vm => some { s with spis := Function.update s.spis vm fun _ => ⟨0, 0, none⟩ }
  | .route vm i id => some (s.setEntry vm i { s.spis vm i with vcpu := some ⟨vm, id⟩ })

def irqSys (cfg : IrqConfig) : Machine IrqTables IrqOp := .ofFun (· = boot) (irqStep cfg)

/-! ## the law -/

/-- an occurrence of `irq` injects `virq`, of that number for the guest, into a vCPU of `vm` -/
def Injects (cfg : IrqConfig) (s : IrqTables) (irq vm virq : Nat) : Prop :=
  32 ≤ virq ∧ (s.spis vm (virq - 32)).intid = virq ∧ ∃ id, s.intHandler cfg irq = some (.spi vm (virq - 32), ⟨vm, id⟩)

/-- no two virqs have one physical interrupt -/
def Single (cfg : IrqConfig) (s : IrqTables) : Prop :=
  ∀ {vm i vm' i'}, i < cfg.vgic.spiNum → i' < cfg.vgic.spiNum → (s.spis vm i).hwintid ≠ 0 →
    (s.spis vm i).hwintid = (s.spis vm' i').hwintid → vm = vm' ∧ i = i'

/-- A mapping asked for in `s`: an error with the tables as they were, or a mapping inside the tables that is there
after all further steps that meet `G`. -/
def MapOk (cfg : IrqConfig) (G : IrqTables → IrqOp → Prop) (s : IrqTables) (vm virq irq : Nat) : Prop :=
  ∃ s' ret, s.mapIrqToGuest cfg vm virq irq = some (s', ret) ∧
    ((ret ≠ 0 ∧ s'.irq2virq = s.irq2virq ∧ s'.spis = s.spis ∧ s'.handler = s.handler) ∨ (ret = 0 ∧ s'.wild = false ∧
        ∀ t, (irqSys cfg).Path G s' t → t.Injects cfg irq vm virq ∧ t.Single cfg))

/-- The condition.  Both numbers are those of SPIs that there are, and the physical one is not given away yet, or
to this very virq; a VM that has interrupts is not started again. -/
def MapWhen (cfg : IrqConfig) (s : IrqTables) : IrqOp → Prop
  | .map vm virq irq => irq < 32 ∨ irq < 32 + cfg.vgic.spiNum ∧ irq < cfg.maxInt ∧ 32 ≤ virq ∧
      virq < 32 + cfg.vgic.spiNum ∧ ((s.irq2virq (irq - 32)).vm = none ∨
        (s.irq2virq (irq - 32)).vm = some vm ∧ (s.irq2virq (irq - 32)).virq = virq)
  | .irqInit vm => ∀ k, (s.irq2virq k).vm ≠ some vm
  | .route .. => True

/-! ## the invariant -/

structure TablesInv (cfg : IrqConfig) (s : IrqTables) : Prop where
  wild : s.wild = false
  vcpu : ∀ k, (s.irq2virq k).vcpu = none
  /-- an entry with a physical interrupt is the one that this interrupt is for -/
  tied : ∀ {vm i}, i < cfg.vgic.spiNum → (s.spis vm i).hwintid ≠ 0 →
    32 ≤ (s.spis vm i).hwintid ∧ (s.irq2virq ((s.spis vm i).hwintid - 32)).vm = some vm ∧
      (s.irq2virq ((s.spis vm i).hwintid - 32)).virq = 32 + i
  numbered : ∀ vm i, (s.spis vm i).Numbered i

/-- `irq` is given to `virq` of `vm` -/
structure Given (cfg : IrqConfig) (s : IrqTables) (irq vm virq : Nat) : Prop where
  irqRange : 32 ≤ irq ∧ irq < 0x3fe
  virqRange : 32 ≤ virq ∧ virq - 32 < cfg.vgic.spiNum
  handler : s.handler irq = true
  toVm : (s.irq2virq (irq - 32)).vm = some vm
  toVirq : (s.irq2virq (irq - 32)).virq = virq
  intid : (s.spis vm (virq - 32)).intid = virq
  vcpu : ∃ id, (s.spis vm (virq - 32)).vcpu = some ⟨vm, id⟩

section
variable {cfg : IrqConfig} {s s' : IrqTables} {vm virq irq : Nat}

theorem setEntry_spis (s : IrqTables) (vm i : Nat) (e : VirqEntry) (vm' i' : Nat) :
    (s.setEntry vm i e).spis vm' i' = if vm' = vm ∧ i' = i then e else s.spis vm' i' := by
  show Function.update s.spis vm (Function.update (s.spis vm) i e) vm' i' = _
  by_cases h : vm' = vm
  · subst h
    rw [Function.update_self, Function.update_apply]
    by_cases h' : i' = i
    · rw [if_pos h', if_pos ⟨rfl, h'⟩]
    · rw [if_neg h', if_neg fun h => h' h.2]
  · rw [if_neg fun h' => h h'.1, Function.update_of_ne h]

/-- the tables after a mapping that meets the condition -/
theorem mapIrqToGuest_spec (hirq : 32 ≤ irq) (hi : irq < 32 + cfg.vgic.spiNum) (hm : irq < cfg.maxInt)
    (hvirq : 32 ≤ virq) (hv : virq < 32 + cfg.vgic.spiNum) : s.mapIrqToGuest cfg vm virq irq = some
      ({ s.setEntry vm (virq - 32) ⟨virq, irq, some ⟨vm, 0⟩⟩ with
          irq2virq := Function.update s.irq2virq (irq - 32) ⟨some vm, virq, (s.irq2virq (irq - 32)).vcpu⟩
          handler := Function.update s.handler irq true
          wild := s.wild }, 0) := by
  have hk : decide (cfg.vgic.spiNum ≤ irq - GIC_BASE_SPI) = false :=
    decide_eq_false (by show ¬ cfg.vgic.spiNum ≤ irq - 32; omega)
  have hx : decide (cfg.vgic.spiNum ≤ virq - GIC_BASE_SPI) = false :=
    decide_eq_false (by show ¬ cfg.vgic.spiNum ≤ virq - 32; omega)
  unfold mapIrqToGuest registerIntHandler
  rw [if_neg (show ¬ irq < GIC_BASE_SPI from Nat.not_lt.mpr hirq)]
  dsimp only
  rw [if_neg (Nat.not_le.mpr hm), Option.map_some]
  unfold vmInitVirqEntry
  rw [if_neg (show ¬ virq < GIC_BASE_SPI from Nat.not_lt.mpr hvirq)]
  dsimp only
  rw [if_neg (show ¬ virq - GIC_BASE_SPI > cfg.vgic.spiNum from Nat.not_lt.mpr (by show virq - 32 ≤ _; omega)),
    hk, hx, Bool.or_false, Bool.or_false]
  rfl

/-- a step that meets the condition and maps: an error, or the above -/
theorem map_cases (hg : MapWhen cfg s (.map vm virq irq)) :
    s.mapIrqToGuest cfg vm virq irq = some (s, ERR_NOT_FOUND) ∨
      32 ≤ irq ∧ irq < 32 + cfg.vgic.spiNum ∧ irq < cfg.maxInt ∧ 32 ≤ virq ∧ virq < 32 + cfg.vgic.spiNum ∧
        ((s.irq2virq (irq - 32)).vm = none ∨
          (s.irq2virq (irq - 32)).vm = some vm ∧ (s.irq2virq (irq - 32)).virq = virq) := by
  by_cases hirq : irq < 32
  · exact .inl (if_pos hirq)
  · exact .inr ⟨by omega, hg.resolve_left hirq⟩

theorem TablesInv.boot : TablesInv cfg boot := ⟨rfl, fun _ => rfl, fun _ h => absurd rfl h, fun _ _ => rfl⟩

theorem TablesInv.step (h : TablesInv cfg s) {op : IrqOp} (hg : MapWhen cfg s op)
    (hs : irqStep cfg s op = some s') : TablesInv cfg s' := by
  cases op with
  | map vm virq irq =>
    rcases map_cases hg with e | ⟨hirq, hi, hm, hvirq, hv, hfree⟩
    · rw [irqStep, e] at hs
      cases hs
      exact h
    rw [irqStep, mapIrqToGuest_spec hirq hi hm hvirq hv] at hs
    cases hs
    refine ⟨h.wild, fun k => ?_, fun {vm' i} hlt hne => ?_, fun vm' i => ?_⟩
    · dsimp only
      by_cases e : k = irq - 32
      · rw [e, Function.update_self]
        exact h.vcpu _
      · rw [Function.update_of_ne e]
        exact h.vcpu k
    · dsimp only at hne ⊢
      rw [setEntry_spis] at hne ⊢
      by_cases e : vm' = vm ∧ i = virq - 32
      · rw [if_pos e, Function.update_self]
        exact ⟨by show 32 ≤ irq; omega, by rw [e.1], by show virq = 32 + i; omega⟩
      · rw [if_neg e] at hne ⊢
        obtain ⟨h1, h2, h3⟩ := h.tied hlt hne
        -- an entry with the same physical interrupt would be the one that it is given to
        have hk : (s.spis vm' i).hwintid - 32 ≠ irq - 32 := by
          intro ek
          rw [ek] at h2 h3
          rcases hfree with hn | ⟨e1, e2⟩
          · rw [hn] at h2
            cases h2
          · rw [h2] at e1
            exact e ⟨Option.some.inj e1, by omega⟩
        rw [Function.update_of_ne hk]
        exact ⟨h1, h2, h3⟩
    · dsimp only
      rw [setEntry_spis]
      split
      · show virq = if irq = 0 then 0 else 32 + i
        rw [if_neg (by omega)]
        omega
      · exact h.numbered vm' i
  | irqInit vm =>
    cases hs
    refine ⟨h.wild, h.vcpu, fun {vm' i} hlt hne => ?_, fun vm' i => ?_⟩
    · dsimp only at hne ⊢
      by_cases e : vm' = vm
      · rw [e, Function.update_self] at hne
        exact absurd rfl hne
      · rw [Function.update_of_ne e] at hne ⊢
        exact h.tied hlt hne
    · dsimp only
      by_cases e : vm' = vm
      · rw [e, Function.update_self]
        rfl
      · rw [Function.update_of_ne e]
        exact h.numbered vm' i
  | route vm j id =>
    cases hs
    refine ⟨h.wild, h.vcpu, fun {vm' i} hlt hne => ?_, fun vm' i => ?_⟩
    · rw [setEntry_spis] at hne ⊢
      split at hne
      · rename_i e
        rw [if_pos e]
        have ht : _ ∧ _ := @TablesInv.tied _ _ h vm j (by omega) hne
        rw [e.1, e.2]
        exact ht
      · rename_i e
        rw [if_neg e]
        exact h.tied hlt hne
    · rw [setEntry_spis]
      split
      · rename_i e
        rw [e.2]
        exact h.numbered vm j
      · exact h.numbered vm' i

theorem TablesInv.single (h : TablesInv cfg s) : s.Single cfg := by
  intro vm i vm' i' hi hi' hne he
  obtain ⟨-, h2, h3⟩ := h.tied hi hne
  obtain ⟨-, h2', h3'⟩ := h.tied hi' (he ▸ hne)
  rw [← he, h2] at h2'
  rw [← he, h3] at h3'
  exact ⟨Option.some.inj h2', by lia⟩

theorem Given.step (h : Given cfg s irq vm virq) {op : IrqOp} (hg : MapWhen cfg s op)
    (hs : irqStep cfg s op = some s') : Given cfg s' irq vm virq := by
  cases op with
  | map vm' virq' irq' =>
    rcases map_cases hg with e | ⟨hirq, hi, hm, hvirq, hv, hfree⟩
    · rw [irqStep, e] at hs
      cases hs
      exact h
    rw [irqStep, mapIrqToGuest_spec hirq hi hm hvirq hv] at hs
    cases hs
    have hsame : irq - 32 = irq' - 32 → vm' = vm ∧ virq' = virq := by
      intro e
      rcases hfree with hn | ⟨e1, e2⟩
      · rw [← e, h.toVm] at hn
        cases hn
      · rw [← e, h.toVm] at e1
        rw [← e, h.toVirq] at e2
        exact ⟨(Option.some.inj e1).symm, e2.symm⟩
    refine ⟨h.irqRange, h.virqRange, ?_, ?_, ?_, ?_, ?_⟩ <;> dsimp only
    · by_cases e : irq = irq'
      · rw [e, Function.update_self]
      · rw [Function.update_of_ne e]
        exact h.handler
    · by_cases e : irq - 32 = irq' - 32
      · rw [e, Function.update_self, (hsame e).1]
      · rw [Function.update_of_ne e]
        exact h.toVm
    · by_cases e : irq - 32 = irq' - 32
      · rw [e, Function.update_self]
        exact (hsame e).2
      · rw [Function.update_of_ne e]
        exact h.toVirq
    · rw [setEntry_spis]
      split
      · have := h.virqRange
        show virq' = virq
        omega
      · exact h.intid
    · rw [setEntry_spis]
      split
      · rename_i e
        exact ⟨0, by rw [e.1]⟩
      · exact h.vcpu
  | irqInit vm' =>
    cases hs
    have e : vm ≠ vm' := by
      rintro rfl
      exact hg _ h.toVm
    refine ⟨h.irqRange, h.virqRange, h.handler, h.toVm, h.toVirq, ?_, ?_⟩ <;> dsimp only <;> rw [Function.update_of_ne e]
    · exact h.intid
    · exact h.vcpu
  | route vm' j id =>
    cases hs
    refine ⟨h.irqRange, h.virqRange, h.handler, h.toVm, h.toVirq, ?_, ?_⟩ <;> rw [setEntry_spis] <;> split
    · rename_i e
      rw [← e.1, ← e.2]
      exact h.intid
    · exact h.intid
    · rename_i e
      exact ⟨id, by rw [e.1]⟩
    · exact h.vcpu

theorem Given.injects (h : Given cfg s irq vm virq) (hv : ∀ k, (s.irq2virq k).vcpu = none) :
    s.Injects cfg irq vm virq := by
  obtain ⟨id, hid⟩ := h.vcpu
  have hr := h.virqRange
  have hirq := h.irqRange
  refine ⟨hr.1, h.intid, id, ?_⟩
  have hx : Vgic.getVirq cfg.vgic vm none virq = some (.spi vm (virq - 32)) := by
    unfold Vgic.getVirq
    rw [if_neg (show ¬ virq < GIC_BASE_SPI from Nat.not_lt.mpr hr.1), if_pos (show virq - GIC_BASE_SPI < _ from hr.2)]
    rfl
  have hinj : s.injectVirq cfg vm none virq = some (.spi vm (virq - 32), ⟨vm, id⟩) := by
    unfold injectVirq
    rw [hx]
    show (s.spis vm (virq - 32)).vcpu.map _ = _
    rw [hid]
    rfl
  unfold intHandler
  rw [if_neg (by
    rintro (h1 | h1 | h1)
    · omega
    · rw [h.handler] at h1
      cases h1
    · exact absurd h1 (Nat.not_lt.mpr hirq.1))]
  show (s.irq2virq (irq - 32)).vm.bind _ = _
  rw [h.toVm, Option.bind_some]
  show s.injectVirq cfg vm (s.irq2virq (irq - 32)).vcpu (s.irq2virq (irq - 32)).virq = _
  rw [h.toVirq, hv, hinj]

/-- **Hardware interrupts.**  In runs whose steps meet the condition a mapping is refused and changes nothing, or it
lies inside the tables, every later occurrence of the interrupt injects the virq, and no two virqs share one. -/
theorem irq_assigned (cfg : IrqConfig) (hr : (irqSys cfg).Run (MapWhen cfg) s)
    (hg : MapWhen cfg s (.map vm virq irq)) : MapOk cfg (MapWhen cfg) s vm virq irq := by
  have hinv : TablesInv cfg s := hr.invariant (I := TablesInv cfg) (fun _ h0 => by rw [h0]; exact .boot)
    fun _ _ _ h hg hs => h.step hg hs
  rcases map_cases hg with e | ⟨hirq, hi, hm, hvirq, hv, -⟩
  · exact ⟨s, ERR_NOT_FOUND, e, .inl ⟨by decide, rfl, rfl, rfl⟩⟩
  have e := @mapIrqToGuest_spec cfg s vm virq irq hirq hi hm hvirq hv
  have hinv' := hinv.step hg (by rw [irqStep, e]; rfl)
  refine ⟨_, 0, e, .inr ⟨rfl, hinv'.wild, fun t ht => ?_⟩⟩
  have hmax := cfg.maxInt_le
  have h0 : TablesInv cfg t ∧ Given cfg t irq vm virq := by
    refine ht.invariant (I := fun t => TablesInv cfg t ∧ Given cfg t irq vm virq)
      (fun _ _ _ h hg hs => ⟨h.1.step hg hs, h.2.step hg hs⟩) ⟨hinv', ?_⟩
    refine ⟨⟨hirq, by omega⟩, ⟨hvirq, by omega⟩, ?_, ?_, ?_, ?_, ⟨0, ?_⟩⟩ <;> dsimp only
    · rw [Function.update_self]
    · rw [Function.update_self]
    · rw [Function.update_self]
    · rw [setEntry_spis, if_pos ⟨rfl, rfl⟩]
    · rw [setEntry_spis, if_pos ⟨rfl, rfl⟩]
  exact ⟨h0.2.injects h0.1.vcpu, h0.1.single⟩

end

/-- four SPIs, of 128 interrupts -/
def smallIrqCfg : IrqConfig where
  vgic := ⟨fun _ => 1, 4, fun _ _ => none, 2, by decide, 1⟩
  maxInt := 128
  maxInt_le := by decide

/-- the first SPI of a VM mapped to a physical interrupt -/
theorem irq_assigned_first : MapWhen smallIrqCfg boot (.map 0 32 33) ∧
    MapOk smallIrqCfg (MapWhen smallIrqCfg) boot 0 32 33 := by
  have hg : MapWhen smallIrqCfg boot (.map 0 32 33) :=
    .inr ⟨by decide, by decide, by decide, by decide, .inl rfl⟩
  have hr : (irqSys smallIrqCfg).Run (MapWhen smallIrqCfg) boot := .init rfl
  exact ⟨hg, irq_assigned smallIrqCfg hr hg⟩

/-- **A private virq.**  `hv_vm_init_virq` gives it up without a word; the mapping is made, `hv_map_irq_to_guest`
returns 0, and the interrupt injects nothing. -/
theorem irq_assigned_fails : ¬ ∀ (cfg : IrqConfig) (s : IrqTables), (irqSys cfg).Reach s →
    ∀ vm virq irq, MapOk cfg (fun _ _ => True) s vm virq irq := by
  intro h
  obtain ⟨s', ret, hs, ho⟩ := h smallIrqCfg boot (.init rfl) 0 10 35
  have hret : ret = 0 := (Prod.mk.inj (Option.some.inj hs)).2.symm
  rcases ho with ho | ⟨-, -, ho⟩
  · exact ho.1 hret
  · have hi := (ho s' (.refl s')).1.1
    omega

end IrqTables
end LkHv
