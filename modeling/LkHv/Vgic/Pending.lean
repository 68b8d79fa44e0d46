import LkHv.Vgic.System

/-!
# The flag `pdq`

`pdq` is a copy of the membership in a pending list.  The functions keep the two in step as long as an
insertion finds a place, a queued interrupt is not moved under its list and a vCPU that is powered off or
started has nothing queued.

* `owner`, `PdqLinked`   whom an interrupt is for; the flag says that it is on the list of its owner;
* `PdqGuard`             the guard;
* `pdq_linked`           in runs under the guard every state is `PdqLinked`;
* `pdq_linked_fails`     not so after two injections of equal priority.
-/

namespace LkHv
namespace Vgic

/-- the vCPU an interrupt is for -/
def owner (s : Vgic) : VirqId → Option VcpuId
  | .priv v _ => some v
  | .spi vm i => (s.irqs (.spi vm i)).vcpu

/-- `pdq` is set if the interrupt is on the pending list of its owner, once, and on no other; otherwise it is
on none. -/
def PdqLinked (s : Vgic) : Prop :=
  ∀ x, ((s.irqs x).pdq = true ↔ ∃ v, s.owner x = some v ∧ (s.pdHead v).count x = 1 ∧ ∀ w, w ≠ v → x ∉ s.pdHead w) ∧
    ((s.irqs x).pdq = false → ∀ v, x ∉ s.pdHead v)

/-- the guard, on the state before a step -/
def PdqGuard (cfg : VgicConfig) (s : Vgic) : VgicOp → Prop
  | .inject _ vm vcpu virq => ∀ x v, getVirq cfg vm vcpu virq = some x → s.injectTarget vcpu x = some v →
    (s.irqs x).enable = true → s.status v ≠ .shutdown → (s.irqs x).pdq = false →
    s.owner x = some v ∧ s.RoomFor v x
  | .irouter _ v index value => ∀ vm i n, s.irouterMoves cfg v index value = some (.spi vm i, n) →
    (s.irqs (.spi vm i)).pdq = true → cfg.hwintid (.spi vm i) ≠ 0 ∧
      ((s.irqs (.spi vm i)).migrate = true ∨ (s.irqs (.spi vm i)).lrNode = false ∧
        ((s.irqs (.spi vm i)).enable = true → s.status n ≠ .shutdown → s.RoomFor n (.spi vm i)))
  | .poweroff _ v => s.status v ≠ .shutdown → s.status v ≠ .created → s.pdHead v = []
  | .irqInit v => ∀ x ∈ s.pdHead v, ∃ i, x = .priv v i
  | _ => True

/-! ## the invariant -/

structure PdqInv (s : Vgic) : Prop where
  wf : QueueWf s
  owner : ∀ v, ∀ x ∈ s.pdHead v, s.owner x = some v
  linked : ∀ x, (s.irqs x).pdq = true → ∃ v, x ∈ s.pdHead v

section
variable {cfg : VgicConfig} {s s' : Vgic} {x : VirqId} {v : VcpuId}

theorem PdqInv.pdqLinked (h : PdqInv s) : PdqLinked s := by
  intro x
  have hfree : (s.irqs x).pdq = false → ∀ v, x ∉ s.pdHead v := by
    intro hq v hx
    rw [h.wf.pdq x (h.wf.node v x hx)] at hq
    cases hq
  refine ⟨⟨fun hq => ?_, fun hv => ?_⟩, hfree⟩
  · obtain ⟨v, hv⟩ := h.linked x hq
    exact ⟨v, h.owner v x hv, List.count_eq_one_of_mem (h.wf.apart.nodup v) hv,
      fun w hw hx => hw (h.wf.apart.once hx hv)⟩
  · obtain ⟨v, -, hc, -⟩ := hv
    by_contra hq
    refine hfree (by simpa using hq) v ?_
    rw [← List.one_le_count_iff, hc]

theorem owner_congr (h : ∀ y, (s'.irqs y).vcpu = (s.irqs y).vcpu) (x : VirqId) : s'.owner x = s.owner x := by
  cases x with
  | priv => rfl
  | spi vm i => exact h (.spi vm i)

theorem PdqInv.boot (h : Boot cfg s) : PdqInv s := by
  refine ⟨.boot h, fun v x hx => ?_, fun x hx => ?_⟩
  · rw [h.pdHead] at hx
    cases hx
  · cases x with
    | priv w i =>
      rw [h.priv] at hx
      cases hx
    | spi vm i =>
      rw [h.spi] at hx
      cases hx

theorem PdqInv.same (h : PdqInv s) (h' : PdSame s s') : PdqInv s' where
  wf := h.wf.same h'
  owner v x hx := by
    rw [h'.pdHead] at hx
    rw [owner_congr h'.vcpu]
    exact h.owner v x hx
  linked x hx := by
    rw [h'.pdq] at hx
    rw [h'.pdHead]
    exact h.linked x hx

theorem PdqInv.unqueued (h : PdqInv s) (h' : Unqueued s s' x) : PdqInv s' where
  wf := h.wf.unqueued h'
  owner v y hy := by
    rw [h'.pdHead, Links.mem_unlink] at hy
    rw [owner_congr h'.vcpu]
    exact h.owner v y hy.1
  linked y hy := by
    have e : y ≠ x := by
      rintro rfl
      rw [h'.self.1] at hy
      cases hy
    rw [(h'.other y e).1] at hy
    obtain ⟨v, hv⟩ := h.linked y hy
    refine ⟨v, ?_⟩
    rw [h'.pdHead, Links.mem_unlink]
    exact ⟨hv, e⟩

theorem PdqInv.queued (h : PdqInv s) (hx : (s.irqs x).pdNode = false) (h' : Queued s s' x v)
    (hown : s.owner x = some v) : PdqInv s' := by
  obtain ⟨l, hl, e⟩ := h'.pdHead
  have hpriv : ∀ w i, x = .priv w i → w = v := by
    rintro w i rfl
    exact Option.some.inj hown
  refine ⟨h.wf.queued hx h' hpriv, fun w y hy => ?_, fun y hy => ?_⟩
  · rw [e, mem_of_update hl] at hy
    rw [owner_congr h'.vcpu]
    rcases hy with ⟨rfl, rfl⟩ | hy
    · exact hown
    · exact h.owner w y hy
  · by_cases ey : y = x
    · exact ⟨v, by rw [e, mem_of_update hl]; exact .inl ⟨ey, rfl⟩⟩
    · rw [(h'.other y ey).1] at hy
      obtain ⟨w, hw⟩ := h.linked y hy
      exact ⟨w, by rw [e, mem_of_update hl]; exact .inr hw⟩

/-- an injection that finds a place -/
theorem PdqInv.inject (h : PdqInv s) (c : Nat)
    (hg : (s.irqs x).enable = true → s.status v ≠ .shutdown → (s.irqs x).pdq = false →
      s.owner x = some v ∧ s.RoomFor v x) : PdqInv (s.vcpuInjectVirq c v x).1 := by
  rcases vcpuInjectVirq_cases s c v x with ⟨hs, -⟩ | ⟨he, hst, hq, hs, -⟩
  · exact h.same hs
  · obtain ⟨hown, hroom⟩ := hg he hst hq
    rcases insertIntoPdlist_cases s x v with ⟨hn, -⟩ | ⟨hn, -, hq⟩ | ⟨-, hno, -⟩
    · rw [h.wf.pdq x hn] at hq
      cases hq
    · exact h.queued hn (hq.same hs) hown
    · exact absurd hroom hno

/-- a change of `vcpu` that leaves the owners of queued interrupts alone -/
theorem PdqInv.setVcpu (h : PdqInv s) {f : VgicIrq → VgicIrq} (hf : ∀ r, (f r).pdq = r.pdq ∧ (f r).pdNode = r.pdNode)
    (hx : ∀ w i, x = .priv w i → i = 0) (hq : ∀ vm i, x = .spi vm i → (s.irqs x).pdq = false) :
    PdqInv (s.setIrq x f) where
  wf := h.wf.setVcpu hf hx
  owner w y hy := by
    have hy' : y ∈ s.pdHead w := hy
    rw [← h.owner w y hy']
    cases y with
    | priv => rfl
    | spi vm i =>
      show ((s.setIrq x f).irqs (.spi vm i)).vcpu = _
      rw [setIrq_of_ne s f]
      · rfl
      · rintro rfl
        rw [h.wf.pdq _ (h.wf.node w _ hy')] at hq
        cases hq vm i rfl
  linked y hy := by
    rw [setIrq_field VgicIrq.pdq fun r => (hf r).1] at hy
    exact h.linked y hy

/-- an interrupt queued for `v` that `hv_migrate_virq` gives to `n` -/
theorem PdqInv.requeue (h : PdqInv s) {vm i : Nat} (n : VcpuId) :
    PdqInv (s.requeued n (.spi vm i)) ∧ (s.requeued n (.spi vm i)).owner (.spi vm i) = some n := by
  have hu := unqueued_requeued s n (.spi vm i)
  have hwf : QueueWf (s.setIrq (.spi vm i) fun r => { r with vcpu := some n }) :=
    h.wf.setVcpu (fun _ => ⟨rfl, rfl⟩) fun w j e => by cases e
  refine ⟨⟨hwf.unqueued hu, fun w y hy => ?_, fun y hy => ?_⟩, ?_⟩
  · rw [hu.pdHead, Links.mem_unlink] at hy
    rw [owner_congr hu.vcpu, ← h.owner w y hy.1]
    cases y with
    | priv => rfl
    | spi vm' j =>
      show ((s.setIrq (.spi vm i) _).irqs (.spi vm' j)).vcpu = _
      rw [setIrq_of_ne s _ hy.2]
      rfl
  · have e : y ≠ .spi vm i := by
      rintro rfl
      rw [hu.self.1] at hy
      cases hy
    rw [(hu.other y e).1, setIrq_of_ne s _ e] at hy
    obtain ⟨w, hw⟩ := h.linked y hy
    refine ⟨w, ?_⟩
    rw [hu.pdHead, Links.mem_unlink]
    exact ⟨hw, e⟩
  · rw [owner_congr hu.vcpu]
    show ((s.setIrq (.spi vm i) _).irqs (.spi vm i)).vcpu = _
    rw [setIrq_self]

theorem requeued_priority (s : Vgic) (n : VcpuId) (x y : VirqId) :
    ((s.requeued n x).irqs y).priority = (s.irqs y).priority := by
  unfold requeued
  rw [setIrq_field VgicIrq.priority fun _ => by rfl, unlinkPd_irqs, setIrq_field VgicIrq.priority fun _ => by rfl]
  exact setIrq_field VgicIrq.priority (fun _ => by rfl) y

theorem requeued_enable (s : Vgic) (n : VcpuId) (x y : VirqId) :
    ((s.requeued n x).irqs y).enable = (s.irqs y).enable := by
  unfold requeued
  rw [setIrq_field VgicIrq.enable fun _ => by rfl, unlinkPd_irqs, setIrq_field VgicIrq.enable fun _ => by rfl]
  exact setIrq_field VgicIrq.enable (fun _ => by rfl) y

theorem RoomFor.requeued {n : VcpuId} (h : s.RoomFor n x) : (s.requeued n x).RoomFor n x := by
  have hm : ∀ {w y}, y ∈ (s.requeued n x).pdHead w ↔ y ∈ s.pdHead w ∧ y ≠ x := Links.mem_unlink
  rcases h with h | ⟨t, ht, hp⟩
  · left
    rw [List.eq_nil_iff_forall_not_mem]
    intro y hy
    have := (hm.mp hy).1
    rw [h] at this
    cases this
  · right
    refine ⟨t, hm.mpr ⟨ht, fun e => ?_⟩, ?_⟩
    · rw [e] at hp
      exact Nat.lt_irrefl _ hp
    · rwa [requeued_priority, requeued_priority]

theorem PdqInv.migrate (h : PdqInv s) (c : Nat) (n : VcpuId) (hx : ∀ w i, x = .priv w i → i = 0)
    (hg : ∀ vm i, x = .spi vm i → (s.irqs x).pdq = true → cfg.hwintid x ≠ 0 ∧
      ((s.irqs x).migrate = true ∨ (s.irqs x).lrNode = false ∧
        ((s.irqs x).enable = true → s.status n ≠ .shutdown → s.RoomFor n x))) :
    PdqInv (s.migrateVirq cfg c n x).1 := by
  have hset : ∀ {f : VgicIrq → VgicIrq}, (∀ r, (f r).pdq = r.pdq ∧ (f r).pdNode = r.pdNode) →
      (∀ vm i, x = .spi vm i → (s.irqs x).pdq = true → False) → PdqInv (s.setIrq x f) :=
    fun hf hq => h.setVcpu hf hx fun vm i e => by
      have := hq vm i e
      simpa using this
  unfold Vgic.migrateVirq
  split
  · rename_i hhw
    dsimp only
    exact hset (fun _ => by exact ⟨rfl, rfl⟩) fun vm i e hq => (hg vm i e hq).1 hhw
  rename_i hhw
  split
  · exact h
  rename_i hmig
  split
  · rename_i hn
    dsimp only
    exact hset (fun _ => by exact ⟨rfl, rfl⟩) fun vm i e hq => by
      obtain ⟨w, hw⟩ := h.linked x hq
      exact hn (h.wf.node w x hw)
  split
  · rename_i hlr
    dsimp only
    refine hset (fun _ => by exact ⟨rfl, rfl⟩) fun vm i e hq => ?_
    rcases (hg vm i e hq).2 with hm | ⟨hl, -⟩
    · exact hmig hm
    · rw [hl] at hlr
      cases hlr
  split
  · rename_i hq
    cases x with
    | priv w i => exact absurd (hx w i rfl) hhw
    | spi vm i =>
      obtain ⟨h1, h2⟩ :
          PdqInv (s.requeued n (.spi vm i)) ∧ (s.requeued n (.spi vm i)).owner (.spi vm i) = some n := h.requeue n
      refine h1.inject c fun he hst _ => ⟨h2, RoomFor.requeued ?_⟩
      rcases (hg vm i rfl hq).2 with hm | ⟨-, hroom⟩
      · exact absurd hm hmig
      · exact hroom (by rwa [requeued_enable] at he) hst
  · exact h

/-- a pending list emptied that holds no shared interrupt -/
theorem PdqInv.clear (h : PdqInv s) (hwf : QueueWf s') (e : s'.pdHead = Function.update s.pdHead v [])
    (hvcpu : ∀ vm i, (s'.irqs (.spi vm i)).vcpu = (s.irqs (.spi vm i)).vcpu)
    (hq : ∀ x, (s'.irqs x).pdq = true → (s.irqs x).pdq = true ∧ x ∉ s.pdHead v) : PdqInv s' := by
  refine ⟨hwf, fun w y hy => ?_, fun y hy => ?_⟩
  · have hy' : y ∈ s.pdHead w := by
      rw [e] at hy
      by_cases ew : w = v
      · rw [ew, Function.update_self] at hy
        cases hy
      · rwa [Function.update_of_ne ew] at hy
    rw [← h.owner w y hy']
    cases y with
    | priv => rfl
    | spi vm i => exact hvcpu vm i
  · obtain ⟨h1, h2⟩ := hq y hy
    obtain ⟨w, hw⟩ := h.linked y h1
    refine ⟨w, ?_⟩
    rw [e, Function.update_of_ne]
    · exact hw
    · rintro rfl
      exact h2 hw

theorem PdqInv.step (h : PdqInv s) {op : VgicOp} (hg : PdqGuard cfg s op)
    (hs : vgicStep cfg s op = some s') : PdqInv s' := by
  by_cases ho : op.pd = false
  · exact h.same (.step hs ho)
  have hwf := h.wf.step hs
  cases op <;> simp only [VgicOp.pd, not_true, Bool.true_eq_false, not_false_eq_true] at ho <;>
    simp only [vgicStep] at hs
  case inject c vm vcpu virq =>
    obtain ⟨r, hr, rfl⟩ := Option.map_eq_some_iff.mp hs
    rcases injectVirq_some hr with rfl | ⟨x, v, hx, hv, rfl, -⟩
    · exact h
    · exact h.inject c (hg x v hx hv)
  case enable x enable =>
    cases hs
    have h1 : PdqInv (s.setIrq x fun r => { r with enable := enable }) :=
      h.same (.setIrq s x fun _ => by exact ⟨rfl, rfl, rfl⟩)
    unfold virqEnable
    simp only
    split
    · exact h1
    · exact h1.unqueued (h1.wf.unqueued_virqCpending x)
  case cpending x =>
    cases hs
    exact h.unqueued (h.wf.unqueued_virqCpending x)
  case irouter c v index value =>
    unfold irouterWrite at hs
    split at hs
    · cases hs
      exact h
    · rename_i x n hmv
      split at hs
      · cases hs
      · rename_i hn
        cases hs
        have hm : PdqInv (s.migrateVirq cfg c n x).1 := by
          refine h.migrate c n (fun w i e => ?_) fun vm i e => ?_
          · by_contra hi
            refine hn ⟨?_, ?_⟩ <;> rw [e]
            · exact h.wf.privVcpu w i hi
            · exact hi
          · subst e
            exact hg vm i n hmv
        split
        · exact hm.same (.setIrq _ x fun _ => by exact ⟨rfl, rfl, rfl⟩)
        · exact hm
  case flush c =>
    split at hs
    · cases hs
    · obtain ⟨v, -, rfl⟩ := Option.map_eq_some_iff.mp hs
      refine flushLoop_rule (fun s x h => ?_) _ h
      rcases flushVirq_pd cfg c v s x with hs | hu
      · exact h.same hs
      · exact h.unqueued hu
  case poweroff c v =>
    split at hs
    · cases hs
      unfold vcpuPoweroff at hwf ⊢
      split
      · exact h
      · rename_i hst
        rw [if_neg hst] at hwf
        have hnil := hg (fun e => hst (.inl e)) fun e => hst (.inr e)
        refine h.clear (v := v) hwf rfl (fun _ _ => rfl) fun x hx => ⟨hx, ?_⟩
        rw [hnil]
        exact List.not_mem_nil
    · cases hs
  case irqInit v =>
    split at hs
    · cases hs
      refine h.clear (v := v) hwf rfl (fun _ _ => rfl) fun x hx => ?_
      cases x with
      | priv w i =>
        change (if w = v then initVirq else s.irqs (.priv w i)).pdq = true at hx
        split at hx
        · cases hx
        · rename_i e
          exact ⟨hx, fun hv => e (h.wf.own v w i hv)⟩
      | spi vm i =>
        refine ⟨hx, fun hv => ?_⟩
        obtain ⟨i, e⟩ := hg _ hv
        cases e
    · cases hs

/-- **The flag `pdq`.**  In runs under the guard it is set for the interrupts that are on the pending list of
their owner, and for no other. -/
theorem pdq_linked (hr : (vgicSys cfg).Run (PdqGuard cfg) s) : PdqLinked s :=
  (hr.invariant (I := PdqInv) (fun _ h0 => .boot h0) fun _ _ _ h hg hs => h.step hg hs).pdqLinked

end

/-! ## runs on a small board -/

/-- two CPUs, VMs of two vCPUs and two SPIs, the first of which is routed to -/
def smallVgicCfg : VgicConfig where
  vcpuNum _ := 2
  spiNum := 2
  spiMap _ i := if i = 0 then some 40 else none
  lrNr := 4
  lrNr_le := by decide
  cpus := 2

def smallVgic : Vgic where
  irqs x :=
    match x with
    | .priv _ _ => initVirq
    | .spi vm i => { initVirq with vcpu := (smallVgicCfg.spiMap vm i).map fun _ => ⟨vm, 0⟩ }
  pdHead _ := []
  lrHead _ := []
  lr _ _ := GicLr.zero
  status _ := .ready
  event _ := false
  cpuId v := some v.id
  ichLr _ _ := GicLr.zero
  vcpu _ := none
  guest _ := false
  starting _ := false
  clash := false

theorem smallVgic_boot : smallVgic.Boot smallVgicCfg :=
  ⟨fun _ _ => rfl, fun _ _ => rfl, fun _ => rfl, fun _ => rfl, fun _ _ => rfl, fun _ => rfl, fun _ => rfl, rfl⟩

/-- the theorem after SGI 1 was injected into vCPU 0 -/
theorem pdq_linked_sgi : ∃ s,
    Machine.exec (vgicStep smallVgicCfg) smallVgic
        [.enable (.priv ⟨0, 0⟩ 1) true, .inject 0 0 (some ⟨0, 0⟩) 1] = some s ∧ PdqLinked s := by
  have h0 : (vgicSys smallVgicCfg).Run (PdqGuard smallVgicCfg) smallVgic := .init smallVgic_boot
  refine ⟨_, rfl, pdq_linked (.step (a := .inject 0 0 (some ⟨0, 0⟩) 1)
    (.step (a := .enable (.priv ⟨0, 0⟩ 1) true) h0 trivial rfl) ?_ rfl)⟩
  intro x v hx hv _ _ _
  cases hx
  cases hv
  exact ⟨rfl, .inl rfl⟩

/-- **Two injections.**  `insert_into_pdlist` leaves out an interrupt that no queued one ranks below, with its
flag set. -/
theorem pdq_linked_fails : ¬ ∀ (cfg : VgicConfig) (s : Vgic), (vgicSys cfg).Reach s → PdqLinked s := by
  intro h
  have hr : (vgicSys smallVgicCfg).Reach smallVgic := .init smallVgic_boot
  obtain ⟨s, hs, hq, hp⟩ : ∃ s,
      Machine.exec (vgicStep smallVgicCfg) smallVgic
        [.enable (.priv ⟨0, 0⟩ 1) true, .enable (.priv ⟨0, 0⟩ 2) true, .inject 0 0 (some ⟨0, 0⟩) 1,
          .inject 0 0 (some ⟨0, 0⟩) 2] = some s ∧
      (s.irqs (.priv ⟨0, 0⟩ 2)).pdq = true ∧ s.pdHead ⟨0, 0⟩ = [.priv ⟨0, 0⟩ 1] :=
    ⟨_, rfl, rfl, rfl⟩
  obtain ⟨v, hv, hc, -⟩ := (h _ _ (hr.exec _ hs) (.priv ⟨0, 0⟩ 2)).1.mp hq
  cases hv
  rw [hp] at hc
  exact absurd hc (by decide)

end Vgic
end LkHv
