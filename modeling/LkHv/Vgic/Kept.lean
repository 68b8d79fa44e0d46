import LkHv.Vgic.Owned

/-!
# No interrupt is lost

After `hv_inject_virq` returned 0 the interrupt is owed to the vCPU until its guest acknowledges it, disables it or
clears its pending state.

* `Held`                what the vCPU has of an interrupt: the entry of its pending list, or a list register;
* `Owing`, `owedAfter`  the controller with the interrupts that are owed, and to which vCPUs;
* `KeepGuard`           the steps that lose none;
* `Fills`, `Stays`      what one round of the flush does to the registers and to the pending lists;
* `virq_kept`           in runs under the guard what is owed is held;
* `virq_kept_fails`     an interrupt that ranks below none of the queued ones is dropped.
-/

namespace LkHv
namespace Vgic

/-! ## statements -/

/-- `x` is on the pending list of `v`, or pending or active in one of its list registers -/
def Held (cfg : VgicConfig) (s : Vgic) (v : VcpuId) (x : VirqId) : Prop :=
  x ∈ s.pdHead v ∨ ∃ k < cfg.lrNr, (s.regs cfg v k).virq = cfg.intid x ∧ (s.regs cfg v k).state ≠ .invalid

/-- a list register that the guest has still to acknowledge -/
def Waits (r : GicLr) : Prop := r.state = .pending ∨ r.state = .actPend

instance (r : GicLr) : Decidable (Waits r) := inferInstanceAs (Decidable (_ ∨ _))

/-- `x` is on the pending list of `v`, or one of its list registers waits with the INTID of `x` -/
def Waiting (cfg : VgicConfig) (s : Vgic) (v : VcpuId) (x : VirqId) : Prop :=
  x ∈ s.pdHead v ∨ ∃ k < cfg.lrNr, (s.regs cfg v k).virq = cfg.intid x ∧ Waits (s.regs cfg v k)

/-- the interrupts that are owed after a step -/
@[local grind =] def owedAfter (cfg : VgicConfig) (s : Vgic) (owed : VirqId → Option VcpuId) : VgicOp → VirqId → Option VcpuId
  | .inject c vm vcpu virq =>
    match getVirq cfg vm vcpu virq, (s.injectVirq cfg c vm vcpu virq).map Prod.snd with
    | some x, some 0 => Function.update owed x (s.injectTarget vcpu x)
    | _, _ => owed
  | .enable x enable => if enable then owed else Function.update owed x none
  | .cpending x => Function.update owed x none
  | .irouter _ v index value =>
    match s.irouterMoves cfg v index value with
    | some (x, n) => if s.Requeues cfg x then Function.update owed x ((owed x).map fun _ => n) else owed
    | none => owed
  | .ack c k => fun x => if owed x = s.vcpu c ∧ cfg.intid x = (s.ichLr c k).virq then none else owed x
  | .poweroff _ v =>
    if s.status v = .shutdown ∨ s.status v = .created then owed else fun x => if owed x = some v then none else owed x
  | .irqInit v => fun x => if owed x = some v then none else owed x
  | _ => owed

/-- `hv_vcpu_inject_virq` finds the vCPU where it can tell it of the interrupt -/
def Notifiable (s : Vgic) (c : Nat) (v : VcpuId) : Prop :=
  s.status v = .running ∧ s.vcpu c ≠ some v → s.cpuId v ≠ none

/-- the flush of `x` does not take the active register of another interrupt for its own -/
def OwnActive (cfg : VgicConfig) (s : Vgic) (c : Nat) (x : VirqId) : Prop :=
  cfg.hwintid x = 0 → (s.irqs x).lr ≠ LR_INDEX_INVALID → (s.lrRead c (s.irqs x).lr).state = .active →
    (s.lrRead c (s.irqs x).lr).virq = cfg.intid x

/-- **The steps that lose no interrupt.** -/
def KeepGuard (cfg : VgicConfig) (s : Vgic) : VgicOp → Prop
  | .inject c vm vcpu virq => ∀ x v, getVirq cfg vm vcpu virq = some x → s.injectTarget vcpu x = some v →
      (s.irqs x).enable = true → s.status v ≠ .shutdown →
      s.Waiting cfg v x ∨ (s.irqs x).pdq = false ∧ (s.Notifiable c v → s.RoomFor v x)
  | .irouter _ v index value => ∀ x n, s.irouterMoves cfg v index value = some (x, n) → s.Requeues cfg x →
      (s.irqs x).enable = true ∧ s.status n ≠ .shutdown ∧ (s.requeued n x).RoomFor n x
  | .flush c => ∀ v, s.vcpu c = some v → ∀ x ∈ s.pdHead v, s.OwnActive cfg c x
  | .switchTo c v => ∀ d, s.vcpu d = some v → d = c
  | .poweroff c v => s.status v ≠ .shutdown → s.status v ≠ .created →
      ∀ w, s.vcpu c = some w → w ≠ v → ∀ k < cfg.lrNr, ¬ Waits (s.ichLr c k)
  | _ => True

/-! ## what is kept -/

/-- the registers that have an index -/
structure Slots (cfg : VgicConfig) (s : Vgic) : Prop where
  loaded : Loaded cfg s
  index : IndexOk cfg s
  pos : ∀ v, ∀ x ∈ s.lrHead v, 0 < cfg.lrNr

/-- the waiting registers of `v` wait on -/
def Kept (cfg : VgicConfig) (s s' : Vgic) (v : VcpuId) : Prop :=
  ∀ k < cfg.lrNr, Waits (s.regs cfg v k) → (s'.regs cfg v k).virq = (s.regs cfg v k).virq ∧ Waits (s'.regs cfg v k)

section
variable {cfg : VgicConfig} {s s' s'' : Vgic} {c k : Nat} {v w n : VcpuId} {x y : VirqId} {l : List VirqId}

theorem Waiting.held (h : Waiting cfg s v x) : Held cfg s v x := by
  refine h.imp_right ?_
  rintro ⟨k, hk, hx, hw⟩
  refine ⟨k, hk, hx, ?_⟩
  obtain e | e := hw <;> rw [e] <;> decide

theorem Waiting.keep (h : Waiting cfg s v x) (hp : x ∈ s.pdHead v → x ∈ s'.pdHead v) (hk : Kept cfg s s' v) :
    Waiting cfg s' v x := by
  obtain h | ⟨k, hlt, hx, hw⟩ := h
  · exact .inl (hp h)
  · obtain ⟨e, hw'⟩ := hk k hlt hw
    exact .inr ⟨k, hlt, e.trans hx, hw'⟩

theorem Kept.of_eq (h : ∀ k < cfg.lrNr, s'.regs cfg v k = s.regs cfg v k) : Kept cfg s s' v := by
  intro k hk hw
  rw [h k hk]
  exact ⟨rfl, hw⟩

theorem Kept.regsSame (h : RegsSame s s') : Kept cfg s s' v := .of_eq fun k _ => by rw [h.regs]

/-- one register of a CPU written that does not wait, or with the INTID it has -/
theorem Kept.write {val : GicLr} (h : Loaded cfg s) (hv : s'.vcpu = s.vcpu) (hl : s'.lr = s.lr)
    (hi : s'.ichLr = Function.update s.ichLr c (Function.update (s.ichLr c) k val))
    (hw : s.vcpu c = some v → Waits (s.ichLr c k) → val.virq = (s.ichLr c k).virq ∧ Waits val) : Kept cfg s s' v := by
  intro j _ hwait
  rw [regs_write h hv hl hi]
  split
  · rename_i hc
    rw [regs_of_loaded h hc] at hwait ⊢
    by_cases e : j = k
    · rw [e] at hwait
      rw [e, Function.update_self]
      exact hw hc hwait
    · rw [Function.update_of_ne e]
      exact ⟨rfl, hwait⟩
  · exact ⟨rfl, hwait⟩

theorem Slots.boot (h : Boot cfg s) : Slots cfg s := by
  have hi := LrInv.boot h
  refine ⟨hi.loaded, hi.index, fun v x hx => ?_⟩
  rw [h.lrHead] at hx
  cases hx

theorem Slots.same (h : Slots cfg s) (h' : LrSame s s') : Slots cfg s' := by
  refine ⟨h.loaded.of_vcpu h'.vcpu, fun x => ?_, fun v x hx => ?_⟩
  · rw [h'.index]
    exact h.index x
  · rw [h'.lrHead] at hx
    exact h.pos v x hx

/-! ## the flush of one interrupt -/

/-- Nothing is written and no list is changed, or `x` leaves its pending list for a register that did not wait. -/
structure Flushed (cfg : VgicConfig) (s s' : Vgic) (c : Nat) (x : VirqId) : Prop where
  lr : s'.lr = s.lr
  vcpu : s'.vcpu = s.vcpu
  index : ∀ y, y ≠ x → (s'.irqs y).lr = (s.irqs y).lr
  self : (s'.irqs x).lr = LR_INDEX_INVALID ∨ (s'.irqs x).lr < cfg.lrNr
  lrHead : ∀ w, ∀ y ∈ s'.lrHead w, y ∈ s.lrHead w ∨ 0 < cfg.lrNr
  regs : s'.ichLr = s.ichLr ∧ PdSame s s' ∨
    Unqueued s s' x ∧ ∃ k < cfg.lrNr, ∃ val : GicLr, ¬ Waits (s.ichLr c k) ∧ val.virq = cfg.intid x ∧ Waits val ∧
      s'.ichLr = Function.update s.ichLr c (Function.update (s.ichLr c) k val)

theorem moveToLrLst_regs (s : Vgic) (v : VcpuId) (x : VirqId) :
    RegsSame s (s.moveToLrLst v x) ∧ ∀ y, ((s.moveToLrLst v x).irqs y).lr = (s.irqs y).lr := by
  have h : NodeSame s ((s.unlinkPd x).setIrq x fun r => { r with pdq := false }) :=
    (NodeSame.unlinkPd s x).trans (.setIrq _ x fun _ => by exact ⟨rfl, rfl⟩)
  unfold moveToLrLst
  dsimp only
  split
  · exact ⟨h.toLrSame.regsSame, h.index⟩
  · have hl := h.toLrSame.trans (.setIrq _ x (f := fun r => { r with lrNode := true }) fun _ => rfl)
    exact ⟨h.toLrSame.regsSame.trans ⟨rfl, rfl, rfl, rfl⟩, hl.index⟩

/-- a register of the CPU written for `x`, which leaves its pending list -/
theorem flushed {s₁ : Vgic} {val : GicLr} (hk : (s.irqs x).lr < cfg.lrNr) (hfree : ¬ Waits (s.ichLr c (s.irqs x).lr))
    (hval : val.virq = cfg.intid x ∧ Waits val)
    (hreg : s₁.ichLr = Function.update s.ichLr c (Function.update (s.ichLr c) (s.irqs x).lr val))
    (hlr : s₁.lr = s.lr) (hvcpu : s₁.vcpu = s.vcpu) (hindex : ∀ y, (s₁.irqs y).lr = (s.irqs y).lr)
    (hpd : PdSame s s₁) : Flushed cfg s (s₁.moveToLrLst v x) c x := by
  obtain ⟨hregs, hmove⟩ := moveToLrLst_regs s₁ v x
  have hsame : ∀ y, ((s₁.moveToLrLst v x).irqs y).lr = (s.irqs y).lr := fun y => (hmove y).trans (hindex y)
  refine ⟨hregs.lr.trans hlr, hregs.vcpu.trans hvcpu, fun y _ => hsame y, .inr (by rw [hsame]; exact hk),
    fun _ _ _ => .inr (Nat.zero_lt_of_lt hk), .inr ⟨.after hpd (unqueued_moveToLrLst s₁ v x), ?_⟩⟩
  exact ⟨_, hk, val, hfree, hval.1, hval.2, hregs.ichLr.trans hreg⟩

/-- `vgic_write_lr` of an index in range -/
theorem vgicWriteLr_of_lt (hk : (s.irqs x).lr < cfg.lrNr) : ∃ val : GicLr, (val.virq = cfg.intid x ∧ Waits val) ∧
    (s.vgicWriteLr cfg c x).ichLr = Function.update s.ichLr c (Function.update (s.ichLr c) (s.irqs x).lr val) ∧
    (s.vgicWriteLr cfg c x).irqs = s.irqs ∧ (s.vgicWriteLr cfg c x).lr = s.lr ∧
    (s.vgicWriteLr cfg c x).vcpu = s.vcpu := by
  have hlr := cfg.lrNr_le
  have hk16 : (s.irqs x).lr < 16 := by omega
  unfold vgicWriteLr lrWrite
  rw [if_pos hk16]
  exact ⟨_, ⟨rfl, .inl rfl⟩, rfl, rfl, rfl, rfl⟩

/-- `vgic_write_lr` to a free register, the flags of `x` set and `move_to_lr_lst` -/
theorem flushed_write {f : VgicIrq → VgicIrq} (hk : (s.irqs x).lr < cfg.lrNr)
    (hfree : (s.ichLr c (s.irqs x).lr).state = .invalid)
    (hf : ∀ r, (f r).lr = r.lr ∧ (f r).pdq = r.pdq ∧ (f r).pdNode = r.pdNode ∧ (f r).vcpu = r.vcpu) :
    Flushed cfg s (((s.vgicWriteLr cfg c x).setIrq x f).moveToLrLst v x) c x := by
  obtain ⟨val, hval, hreg, hirqs, hlr, hvcpu⟩ := vgicWriteLr_of_lt (c := c) hk
  refine flushed hk ?_ hval hreg hlr hvcpu (fun y => ?_) (.trans (.vgicWriteLr cfg s c x) (.setIrq _ x fun r => ?_))
  · rintro (e | e) <;> cases hfree.symm.trans e
  · rw [setIrq_field VgicIrq.lr fun r => (hf r).1, hirqs]
  · exact (hf r).2

/-- `vgic_update_lr` of the active register of `x` -/
theorem vgicUpdateLr_of_active (hk : (s.irqs x).lr < cfg.lrNr) (hactive : (s.ichLr c (s.irqs x).lr).state = .active)
    (hown : (s.ichLr c (s.irqs x).lr).virq = cfg.intid x) : ∃ val : GicLr, (val.virq = cfg.intid x ∧ Waits val) ∧
    (s.vgicUpdateLr cfg c x).ichLr = Function.update s.ichLr c (Function.update (s.ichLr c) (s.irqs x).lr val) ∧
    (s.vgicUpdateLr cfg c x).irqs = s.irqs ∧ (s.vgicUpdateLr cfg c x).lr = s.lr ∧
    (s.vgicUpdateLr cfg c x).vcpu = s.vcpu := by
  have hlr := cfg.lrNr_le
  have hk16 : (s.irqs x).lr < 16 := by omega
  unfold vgicUpdateLr lrRead lrWrite
  dsimp only
  rw [if_pos hk16, if_pos hactive, if_pos hk16]
  exact ⟨{ s.ichLr c (s.irqs x).lr with state := .actPend }, ⟨hown, .inr rfl⟩, rfl, rfl, rfl, rfl⟩

/-- `vgic_update_lr` of the active register of `x`, its flags set and `move_to_lr_lst` -/
theorem flushed_update {f : VgicIrq → VgicIrq} (hk : (s.irqs x).lr < cfg.lrNr)
    (hactive : (s.ichLr c (s.irqs x).lr).state = .active) (hown : (s.ichLr c (s.irqs x).lr).virq = cfg.intid x)
    (hf : ∀ r, (f r).lr = r.lr ∧ (f r).pdq = r.pdq ∧ (f r).pdNode = r.pdNode ∧ (f r).vcpu = r.vcpu) :
    Flushed cfg s (((s.vgicUpdateLr cfg c x).setIrq x f).moveToLrLst v x) c x := by
  obtain ⟨val, hval, hreg, hirqs, hlr, hvcpu⟩ := vgicUpdateLr_of_active hk hactive hown
  refine flushed hk ?_ hval hreg hlr hvcpu (fun y => ?_) (.trans (.vgicUpdateLr cfg s c x) (.setIrq _ x fun r => ?_))
  · rintro (e | e) <;> cases hactive.symm.trans e
  · rw [setIrq_field VgicIrq.lr fun r => (hf r).1, hirqs]
  · exact (hf r).2

/-- a flush after the index of `x` was set -/
theorem Flushed.of_index (h : Flushed cfg (s.setIrq x fun r => { r with lr := k }) s' c x) :
    Flushed cfg s s' c x := by
  have hpd : PdSame s (s.setIrq x fun r => { r with lr := k }) := .setIrq s x fun _ => by exact ⟨rfl, rfl, rfl⟩
  refine ⟨h.lr, h.vcpu, fun y hy => ?_, h.self, h.lrHead, ?_⟩
  · rw [h.index y hy, setIrq_of_ne _ _ hy]
  · obtain ⟨hreg, hsame⟩ | ⟨hu, hreg⟩ := h.regs
    · exact .inl ⟨hreg, hpd.trans hsame⟩
    · exact .inr ⟨.after hpd hu, hreg⟩

/-- a register looked for, and written if there is one -/
theorem flushed_found {f : VgicIrq → VgicIrq}
    (hf : ∀ r, (f r).lr = r.lr ∧ (f r).pdq = r.pdq ∧ (f r).pdNode = r.pdNode ∧ (f r).vcpu = r.vcpu)
    (hfound : ¬ ((s.setIrq x fun r => { r with lr := s.vgicGetLr cfg c }).irqs x).lr = LR_INDEX_INVALID) :
    Flushed cfg s ((((s.setIrq x fun r => { r with lr := s.vgicGetLr cfg c }).vgicWriteLr cfg c x).setIrq x
      f).moveToLrLst v x) c x := by
  rw [setIrq_self] at hfound
  obtain ⟨hk, hfree⟩ := (vgicGetLr_spec cfg s c).resolve_left hfound
  refine .of_index (flushed_write ?_ ?_ hf)
  · rw [setIrq_self]
    exact hk
  · rw [setIrq_self]
    exact hfree

/-- no register is free -/
theorem flushed_none (hno : ((s.setIrq x fun r => { r with lr := k }).irqs x).lr = LR_INDEX_INVALID) :
    Flushed cfg s (s.setIrq x fun r => { r with lr := k }) c x := by
  refine ⟨rfl, rfl, fun y hy => ?_, .inl hno, fun _ _ hy => .inl hy, .inl ⟨rfl, ?_⟩⟩
  · rw [setIrq_of_ne _ _ hy]
  · exact .setIrq s x fun _ => by exact ⟨rfl, rfl, rfl⟩

theorem setIrq_id (s : Vgic) (x : VirqId) : s.setIrq x id = s := by
  unfold setIrq
  rw [show id (s.irqs x) = s.irqs x from rfl, Function.update_eq_self]

/-- **The flush of one interrupt.** -/
theorem flushVirq_flushed (h : Slots cfg s) (hok : OwnActive cfg s c x) :
    Flushed cfg s (s.flushVirq cfg c v x).1 c x := by
  have hlr := cfg.lrNr_le
  unfold flushVirq
  by_cases hhw : cfg.hwintid x ≠ 0
  · rw [if_pos hhw]
    dsimp only
    split
    · rename_i hno
      exact flushed_none hno
    · rename_i hfound
      have hf := flushed_found (v := v) (f := id) (fun _ => ⟨rfl, rfl, rfl, rfl⟩) hfound
      rw [setIrq_id] at hf
      exact hf
  rw [if_neg hhw]
  by_cases hnone : (s.irqs x).lr = LR_INDEX_INVALID
  · rw [if_pos hnone]
    dsimp only
    split
    · rename_i hno
      exact flushed_none hno
    · rename_i hfound
      exact flushed_found (fun _ => by exact ⟨rfl, rfl, rfl, rfl⟩) hfound
  · rw [if_neg hnone]
    have hk : (s.irqs x).lr < cfg.lrNr := (h.index x).resolve_left hnone
    have hread : s.lrRead c (s.irqs x).lr = s.ichLr c (s.irqs x).lr := if_pos (by omega)
    have hown := hok (not_not.mp hhw) hnone
    rw [hread] at hown ⊢
    split
    · rename_i hactive
      exact flushed_update hk hactive (hown hactive) fun _ => by exact ⟨rfl, rfl, rfl, rfl⟩
    · rename_i hfree
      exact flushed_write hk hfree fun _ => by exact ⟨rfl, rfl, rfl, rfl⟩
    · exact ⟨rfl, rfl, fun _ _ => rfl, h.index x, fun _ _ hy => .inl hy, .inl ⟨rfl, .refl s⟩⟩

/-! ## the flush -/

theorem Slots.flushed (h : Slots cfg s) (h' : Flushed cfg s s' c x) : Slots cfg s' := by
  refine ⟨h.loaded.of_vcpu h'.vcpu, fun y => ?_, fun w y hy => ?_⟩
  · by_cases e : y = x
    · rw [e]
      exact h'.self
    · rw [h'.index y e]
      exact h.index y
  · exact (h'.lrHead w y hy).elim (h.pos w y) id

/-- what waits for a vCPU waits on; an interrupt of the flushed list may have a register now -/
theorem Flushed.waiting (h' : Flushed cfg s s' c x) (h : Slots cfg s) (hv : s.vcpu c = some v)
    (hx : ∀ w, x ∈ s.pdHead w → w = v) (hy : Waiting cfg s w y) : Waiting cfg s' w y := by
  obtain ⟨hreg, hpd⟩ | ⟨hu, k, hk, val, hfree, hvirq, hwaits, hreg⟩ := h'.regs
  · refine hy.keep (fun hm => by rw [hpd.pdHead]; exact hm) (.of_eq fun k _ => ?_)
    unfold Vgic.regs loadedOn
    rw [h'.vcpu, hreg, h'.lr]
  · have hkept : Kept cfg s s' w := .write h.loaded h'.vcpu h'.lr hreg fun _ hw => absurd hw hfree
    obtain hm | hr := hy
    · by_cases e : y = x
      · -- the register written is that of the list's vCPU
        subst e
        obtain rfl := hx w hm
        refine .inr ⟨k, hk, ?_⟩
        rw [regs_write h.loaded h'.vcpu h'.lr hreg, if_pos hv, Function.update_self]
        exact ⟨hvirq, hwaits⟩
      · refine .inl ?_
        rw [hu.pdHead, Links.mem_unlink]
        exact ⟨hm, e⟩
    · obtain ⟨j, hj, hyj, hw⟩ := hr
      obtain ⟨e, hw⟩ := hkept j hj hw
      exact .inr ⟨j, hj, e.trans hyj, hw⟩

theorem Flushed.ownActive (h' : Flushed cfg s s' c x) (hne : y ≠ x) (hy : OwnActive cfg s c y) :
    OwnActive cfg s' c y := by
  intro hhw hindex hactive
  rw [h'.index y hne] at hindex hactive ⊢
  obtain ⟨hreg, -⟩ | ⟨-, k, -, val, -, -, hwaits, hreg⟩ := h'.regs
  · unfold lrRead at hactive ⊢
    rw [hreg] at hactive ⊢
    exact hy hhw hindex hactive
  · unfold lrRead at hactive ⊢
    split at hactive
    · rename_i h16
      rw [hreg, Function.update_self] at hactive
      by_cases e : (s.irqs y).lr = k
      · rw [e, Function.update_self] at hactive
        obtain e | e := hwaits <;> cases hactive.symm.trans e
      · rw [Function.update_of_ne e] at hactive
        have hown := hy hhw hindex
        unfold lrRead at hown
        rw [if_pos h16] at hown
        rw [if_pos h16, hreg, Function.update_self, Function.update_of_ne e]
        exact hown hactive
    · cases hactive

/-- **The flush loses no interrupt.** -/
theorem flushLoop_waiting (hn : l.Nodup) : ∀ {s : Vgic}, Slots cfg s → s.vcpu c = some v →
    (∀ x ∈ l, OwnActive cfg s c x) → (∀ x ∈ l, ∀ w, x ∈ s.pdHead w → w = v) →
    Slots cfg (flushLoop cfg c v l s) ∧ ∀ w y, Waiting cfg s w y → Waiting cfg (flushLoop cfg c v l s) w y := by
  induction l with
  | nil => exact fun h _ _ _ => ⟨h, fun _ _ hy => hy⟩
  | cons x l ih =>
    intro s h hv hok hlist
    obtain ⟨hx, hn⟩ := List.nodup_cons.mp hn
    have hf : Flushed cfg s (s.flushVirq cfg c v x).1 c x := flushVirq_flushed h (hok x (.head _))
    have hwait : ∀ w y, Waiting cfg s w y → Waiting cfg (s.flushVirq cfg c v x).1 w y :=
      fun w y hy => hf.waiting h hv (hlist x (.head _)) hy
    have hlist' : ∀ y ∈ l, ∀ w, y ∈ (s.flushVirq cfg c v x).1.pdHead w → w = v := by
      intro y hy w hm
      refine hlist y (.tail _ hy) w ?_
      obtain hs | hu := flushVirq_pd cfg c v s x
      · rw [hs.pdHead] at hm
        exact hm
      · exact mem_pdHead_unqueued hu hm
    rw [flushLoop]
    split
    · obtain ⟨hslots, hrest⟩ := ih hn (h.flushed hf) ((congrFun hf.vcpu c).trans hv)
        (fun y hy => hf.ownActive (fun e => hx (e ▸ hy)) (hok y (.tail _ hy))) hlist'
      exact ⟨hslots, fun w y hy => hrest w y (hwait w y hy)⟩
    · exact ⟨h.flushed hf, hwait⟩

/-! ## the sync -/

theorem Slots.sync (h : Slots cfg s) (hpos : 0 < cfg.lrNr) :
    Slots cfg (s.syncVirq cfg c x) ∧ RegsSame s (s.syncVirq cfg c x) := by
  have hfree : Slots cfg (s.freeVirq x) := by
    refine ⟨h.loaded.of_vcpu rfl, fun y => ?_, fun _ _ _ => hpos⟩
    by_cases e : y = x
    · rw [e, (freeVirq_self s x).1]
      exact .inr hpos
    · rw [freeVirq_other s e]
      exact h.index y
  have hset : ∀ f : VgicIrq → VgicIrq, (∀ r, (f r).lr = r.lr) → Slots cfg (s.setIrq x f) :=
    fun f hf => h.same (.setIrq s x hf)
  unfold syncVirq
  split
  · exact ⟨h, .refl s⟩
  dsimp only
  split
  · exact ⟨hfree, rfl, rfl, rfl, rfl⟩
  split
  · exact ⟨hfree, rfl, rfl, rfl, rfl⟩
  all_goals exact ⟨hset _ fun _ => rfl, .setIrq s x _⟩

theorem Slots.syncAll (hpos : ∀ x ∈ l, 0 < cfg.lrNr) : ∀ {s : Vgic}, Slots cfg s →
    Slots cfg (l.foldl (syncVirq cfg c) s) ∧ RegsSame s (l.foldl (syncVirq cfg c) s) := by
  induction l with
  | nil => exact fun h => ⟨h, .refl _⟩
  | cons x l ih =>
    intro s h
    obtain ⟨h₁, hr₁⟩ := h.sync (c := c) (x := x) (hpos x (.head _))
    obtain ⟨h₂, hr₂⟩ := ih (fun y hy => hpos y (.tail _ hy)) h₁
    exact ⟨h₂, hr₁.trans hr₂⟩

theorem Slots.syncIrqFromLrs (h : Slots cfg s) (c : Nat) (v : VcpuId) :
    Slots cfg (s.syncIrqFromLrs cfg c v) ∧ RegsSame s (s.syncIrqFromLrs cfg c v) :=
  Slots.syncAll (h.pos v) h

/-- what waits, waits on after a step that leaves the registers and the pending lists alone -/
theorem Waiting.same (h : Waiting cfg s v x) (hp : s'.pdHead = s.pdHead) (hr : RegsSame s s') : Waiting cfg s' v x :=
  h.keep (fun hm => by rw [hp]; exact hm) (.regsSame hr)

/-! ## the queue -/

theorem pdHead_inject_mono (c : Nat) (v : VcpuId) (x : VirqId) (hy : y ∈ s.pdHead w) :
    y ∈ (s.vcpuInjectVirq c v x).1.pdHead w := by
  obtain ⟨hs, -⟩ | ⟨-, -, -, hs, -⟩ := vcpuInjectVirq_cases s c v x
  · rw [hs.pdHead]
    exact hy
  · rw [hs.pdHead]
    obtain ⟨-, e⟩ | ⟨-, -, hq⟩ | ⟨-, -, hm⟩ := insertIntoPdlist_cases s x v
    · rw [e]
      exact hy
    · obtain ⟨l, hl, e⟩ := hq.pdHead
      rw [e, mem_of_update hl]
      exact .inr hy
    · rw [hm.pdHead]
      exact hy

theorem insertIntoPdlist_vcpus (s : Vgic) (x : VirqId) (v : VcpuId) :
    (s.insertIntoPdlist x v).status = s.status ∧ (s.insertIntoPdlist x v).vcpu = s.vcpu ∧
      (s.insertIntoPdlist x v).cpuId = s.cpuId := by
  unfold insertIntoPdlist
  split
  · exact ⟨rfl, rfl, rfl⟩
  · dsimp only
    split
    · exact ⟨rfl, rfl, rfl⟩
    · split <;> exact ⟨rfl, rfl, rfl⟩

/-- an injection that returns 0 -/
theorem vcpuInjectVirq_zero (h : (s.vcpuInjectVirq c v x).2 = 0) : (s.irqs x).enable = true ∧
    s.status v ≠ .shutdown ∧ ((s.irqs x).pdq = false → s.Notifiable c v) := by
  obtain ⟨hstatus, hvcpu, hcpu⟩ := insertIntoPdlist_vcpus s x v
  unfold vcpuInjectVirq at h
  split at h
  · cases h
  rename_i he
  split at h
  · cases h
  rename_i hst
  refine ⟨not_not.mp he, hst, fun hpdq => ?_⟩
  rw [hpdq, if_neg Bool.false_ne_true] at h
  dsimp only at h
  intro hrun hnone
  rw [hstatus, hvcpu, hcpu, if_pos hrun, hnone] at h
  cases h

/-- an interrupt that is queued where there is room -/
theorem mem_pdHead_room (he : (s.irqs x).enable = true) (hst : s.status v ≠ .shutdown)
    (hpdq : (s.irqs x).pdq = false) (hnode : (s.irqs x).pdNode = false) (hroom : s.RoomFor v x) :
    x ∈ (s.vcpuInjectVirq c v x).1.pdHead v := by
  have hins : x ∈ (s.insertIntoPdlist x v).pdHead v := by
    obtain ⟨hn, -⟩ | ⟨-, -, hq⟩ | ⟨-, hno, -⟩ := insertIntoPdlist_cases s x v
    · cases hn.symm.trans hnode
    · obtain ⟨l, hl, e⟩ := hq.pdHead
      rw [e, mem_of_update hl]
      exact .inl ⟨rfl, rfl⟩
    · exact absurd hroom hno
  unfold vcpuInjectVirq
  rw [if_neg (not_not.mpr he), if_neg hst, hpdq, if_neg Bool.false_ne_true]
  dsimp only
  split
  · split <;> exact hins
  · split
    · rw [(vcpuResume_same _ v).1.pdHead]
      exact hins
    · exact hins

/-- what is owed waits on a pending list or in a list register -/
def Owed (cfg : VgicConfig) (s : Vgic) (owed : VirqId → Option VcpuId) : Prop :=
  ∀ x v, owed x = some v → Waiting cfg s v x

/-- what waits, waits on, except for one interrupt that is no longer owed -/
theorem Owed.drop {owed : VirqId → Option VcpuId} (h : Owed cfg s owed)
    (hw : ∀ v, ∀ y, y ≠ x → Waiting cfg s v y → Waiting cfg s' v y) : Owed cfg s' (Function.update owed x none) := by
  intro y v hy
  by_cases e : y = x
  · rw [e, Function.update_self] at hy
    cases hy
  · rw [Function.update_of_ne e] at hy
    exact hw v y e (h y v hy)

theorem Owed.inject {owed : VirqId → Option VcpuId} (h : Owed cfg s owed) (hq : QueueWf s) {c vm virq : Nat}
    {vcpu : Option VcpuId} (hg : KeepGuard cfg s (.inject c vm vcpu virq)) {r : Vgic × Int}
    (hr : s.injectVirq cfg c vm vcpu virq = some r) :
    Owed cfg r.1 (owedAfter cfg s owed (.inject c vm vcpu virq)) := by
  rw [owedAfter, hr]
  obtain rfl | ⟨x, v, hx, hv, rfl, -⟩ := injectVirq_some hr
  · cases getVirq cfg vm vcpu virq <;> exact h
  · have hl := LrSame.vcpuInjectVirq s c v x
    have hmono : ∀ w y, Waiting cfg s w y → Waiting cfg (s.vcpuInjectVirq c v x).1 w y :=
      fun w y hy => hy.keep (pdHead_inject_mono c v x) (.regsSame hl.regsSame)
    have hold : Owed cfg (s.vcpuInjectVirq c v x).1 owed := fun y w hy => hmono w y (h y w hy)
    rw [hx, Option.map_some]
    split
    · rename_i y hy hz
      cases hy
      obtain ⟨he, hst, hreach⟩ := vcpuInjectVirq_zero (Option.some.inj hz)
      intro y w hy
      by_cases e : y = x
      · subst e
        rw [Function.update_self, hv] at hy
        obtain rfl := Option.some.inj hy
        obtain hw | ⟨hpdq, hroom⟩ := hg y v hx hv he hst
        · exact hmono v y hw
        · have hnode : (s.irqs y).pdNode = false := by
            rw [← Bool.not_eq_true]
            intro hn
            cases (hq.pdq y hn).symm.trans hpdq
          exact .inl (mem_pdHead_room he hst hpdq hnode (hroom (hreach hpdq)))
      · rw [Function.update_of_ne e] at hy
        exact hold y w hy
    · exact hold

/-- `hv_migrate_virq` of an interrupt that it does not queue again -/
theorem migrateVirq_pdHead (c : Nat) (n : VcpuId) (h : ¬ s.Requeues cfg x) :
    (s.migrateVirq cfg c n x).1.pdHead = s.pdHead := by
  unfold migrateVirq
  split
  · rfl
  rename_i hhw
  split
  · rfl
  rename_i hmig
  split
  · rfl
  rename_i hnode
  split
  · rfl
  rename_i hlr
  split
  · rename_i hq
    exact absurd ⟨hhw, Bool.not_eq_true _ ▸ hmig, not_not.mp hnode, Bool.not_eq_true _ ▸ hlr, hq⟩ h
  · rfl

theorem migrateVirq_requeues (c : Nat) (n : VcpuId) (h : s.Requeues cfg x) :
    (s.migrateVirq cfg c n x).1 = ((s.requeued n x).vcpuInjectVirq c n x).1 := by
  obtain ⟨hhw, hmig, hnode, hlr, hq⟩ := h
  unfold migrateVirq
  rw [if_neg hhw, if_neg (by rw [hmig]; exact Bool.false_ne_true), if_neg (not_not.mpr hnode),
    if_neg (by rw [hlr]; exact Bool.false_ne_true), if_pos hq]

/-- the interrupt that `hv_migrate_virq` queues again is in the new vCPU's list -/
theorem requeued_waiting (cfg : VgicConfig)
    (h : (s.irqs x).enable = true ∧ s.status n ≠ .shutdown ∧ (s.requeued n x).RoomFor n x) (c : Nat) :
    x ∈ ((s.requeued n x).vcpuInjectVirq c n x).1.pdHead n ∧
      ∀ w, ∀ y, y ≠ x → Waiting cfg s w y → Waiting cfg ((s.requeued n x).vcpuInjectVirq c n x).1 w y := by
  obtain ⟨he, hst, hroom⟩ := h
  have hu := unqueued_requeued s n x
  refine ⟨mem_pdHead_room (by rw [requeued_enable]; exact he) hst hu.self.1 hu.self.2 hroom, fun w y hne hy => ?_⟩
  have hl := (LrSame.requeued s n x).trans (.vcpuInjectVirq (s.requeued n x) c n x)
  refine hy.keep (fun hm => pdHead_inject_mono c n x ?_) (.regsSame hl.regsSame)
  rw [hu.pdHead, Links.mem_unlink]
  exact ⟨hm, hne⟩

theorem Owed.irouter {owed : VirqId → Option VcpuId} (h : Owed cfg s owed) {c index value : Nat} {v : VcpuId}
    (hg : KeepGuard cfg s (.irouter c v index value)) (hs : s.irouterWrite cfg c v index value = some s') :
    Owed cfg s' (owedAfter cfg s owed (.irouter c v index value)) := by
  have hl := LrSame.irouterWrite cfg hs
  rw [owedAfter]
  unfold irouterWrite at hs
  cases hm : s.irouterMoves cfg v index value with
  | none =>
    rw [hm] at hs
    cases hs
    exact h
  | some m =>
    obtain ⟨x, n⟩ := m
    rw [hm] at hs
    dsimp only at hs ⊢
    split at hs
    · cases hs
    have hpd : s'.pdHead = (s.migrateVirq cfg c n x).1.pdHead := by
      cases hs
      split <;> rfl
    split
    · rename_i hreq
      have hmv := migrateVirq_requeues c n hreq
      rw [hmv] at hpd
      obtain ⟨hmem, hrest⟩ := requeued_waiting cfg (hg x n hm hreq) c
      have hsame : ∀ w y, Waiting cfg ((s.requeued n x).vcpuInjectVirq c n x).1 w y → Waiting cfg s' w y := by
        intro w y hy
        refine hy.keep (fun hm => by rw [hpd]; exact hm) (.of_eq fun k _ => ?_)
        rw [hl.regsSame.regs]
        have hl' := (LrSame.requeued s n x).trans (.vcpuInjectVirq (s.requeued n x) c n x)
        rw [hl'.regsSame.regs]
      intro y w hy
      by_cases e : y = x
      · subst e
        rw [Function.update_self] at hy
        obtain ⟨u, -, rfl⟩ := Option.map_eq_some_iff.mp hy
        exact .inl (hpd ▸ hmem)
      · rw [Function.update_of_ne e] at hy
        exact hsame w y (hrest w y e (h y w hy))
    · rename_i hreq
      rw [migrateVirq_pdHead c n hreq] at hpd
      exact fun y w hy => (h y w hy).same hpd hl.regsSame

/-! ## every step -/

theorem Slots.step (h : Slots cfg s) (hq : QueueWf s) {op : VgicOp} (hg : KeepGuard cfg s op)
    (hs : vgicStep cfg s op = some s') : Slots cfg s' := by
  by_cases ho : op.lrs = false
  · exact h.same (.step hs ho)
  cases op <;> simp only [VgicOp.lrs, not_true, Bool.true_eq_false, not_false_eq_true] at ho <;>
    simp only [vgicStep] at hs
  case flush c =>
    split at hs
    · cases hs
    · obtain ⟨v, hv, rfl⟩ := Option.map_eq_some_iff.mp hs
      exact (flushLoop_waiting (hq.apart.nodup v) h hv (hg v hv) fun x hx w hw => hq.apart.once hw hx).1
  case sync c =>
    split at hs
    · cases hs
    · obtain ⟨v, hv, rfl⟩ := Option.map_eq_some_iff.mp hs
      exact (h.syncIrqFromLrs c v).1
  case switchTo c v =>
    split at hs
    · rename_i hc
      cases hs
      obtain ⟨hirqs, hhead, -⟩ := vcpuSwitchTo_same cfg s c v
      refine ⟨h.loaded.switchTo hc.2 hg, fun x => ?_, fun w x hx => ?_⟩
      · rw [hirqs]
        exact h.index x
      · rw [hhead] at hx
        exact h.pos w x hx
    · cases hs
  case enter c =>
    split at hs
    · cases hs
      exact ⟨h.loaded.of_vcpu rfl, h.index, h.pos⟩
    · cases hs
  case exit c =>
    split at hs
    · obtain ⟨v, -, rfl⟩ := Option.map_eq_some_iff.mp hs
      have h' : Slots cfg { s with guest := Function.update s.guest c false } :=
        ⟨h.loaded.of_vcpu rfl, h.index, h.pos⟩
      exact (h'.syncIrqFromLrs c v).1
    · cases hs
  case ack c k =>
    split at hs
    · cases hs
      exact ⟨h.loaded.of_vcpu rfl, h.index, h.pos⟩
    · cases hs
  case eoi c k =>
    split at hs
    · split at hs
      · cases hs
        exact ⟨h.loaded.of_vcpu rfl, h.index, h.pos⟩
      · cases hs
        exact ⟨h.loaded.of_vcpu rfl, h.index, h.pos⟩
      · cases hs
    · cases hs
  case poweroff c v =>
    split at hs
    · cases hs
      unfold vcpuPoweroff
      split
      · exact h
      · exact ⟨h.loaded.of_vcpu rfl, h.index, fun w x hx => h.pos w x (mem_clear hx).2⟩
    · cases hs
  case irqInit v =>
    split at hs
    · cases hs
      refine ⟨h.loaded.of_vcpu rfl, fun x => ?_, fun w x hx => h.pos w x (mem_clear hx).2⟩
      cases x with
      | priv w i =>
        show ((s.irqInit v).irqs (.priv w i)).lr = _ ∨ ((s.irqInit v).irqs (.priv w i)).lr < _
        rw [irqInit_priv]
        split
        · exact .inl rfl
        · exact h.index (.priv w i)
      | spi vm i => exact h.index (.spi vm i)
    · cases hs

/-- what is owed to the other vCPUs than `v` -/
theorem Owed.forget {owed : VirqId → Option VcpuId} (h : Owed cfg s owed)
    (hw : ∀ w, w ≠ v → ∀ y, Waiting cfg s w y → Waiting cfg s' w y) :
    Owed cfg s' fun x => if owed x = some v then none else owed x := by
  intro y w hy
  dsimp only at hy
  split at hy
  · cases hy
  · rename_i hne
    refine hw w (fun e => hne (e ▸ hy)) y (h y w hy)

/-- the guest acknowledges a register -/
theorem Owed.ack {owed : VirqId → Option VcpuId} (h : Owed cfg s owed) (hl : Loaded cfg s) :
    Owed cfg (s.guestLr c k .active) (owedAfter cfg s owed (.ack c k)) := by
  intro y w hy
  rw [owedAfter] at hy
  dsimp only at hy
  split at hy
  · cases hy
  rename_i hne
  obtain hm | ⟨j, hj, hyj, hwait⟩ := h y w hy
  · exact .inl hm
  · refine .inr ⟨j, hj, ?_⟩
    rw [regs_write hl (show (s.guestLr c k .active).vcpu = s.vcpu from rfl) rfl rfl]
    split
    · rename_i hc
      rw [regs_of_loaded hl hc] at hyj hwait
      -- the register acknowledged has another INTID
      have hjk : j ≠ k := by
        rintro rfl
        exact hne ⟨hy.trans hc.symm, hyj.symm⟩
      rw [Function.update_of_ne hjk]
      exact ⟨hyj, hwait⟩
    · exact ⟨hyj, hwait⟩

/-- **No step under the guard loses an interrupt.** -/
theorem Owed.step {owed : VirqId → Option VcpuId} (h : Owed cfg s owed) (hsl : Slots cfg s) (hq : QueueWf s)
    {op : VgicOp} (hg : KeepGuard cfg s op) (hs : vgicStep cfg s op = some s') :
    Owed cfg s' (owedAfter cfg s owed op) := by
  have hidle : op.pd = false → op.lrs = false → Owed cfg s' owed := fun hp hl x v hx =>
    (h x v hx).same (PdSame.step hs hp).pdHead (LrSame.step hs hl).regsSame
  cases op
  case inject c vm vcpu virq =>
    obtain ⟨r, hr, rfl⟩ := Option.map_eq_some_iff.mp hs
    exact h.inject hq hg hr
  case enable x enable =>
    cases hs
    have hl := (LrSame.virqEnable s x enable).regsSame
    rw [owedAfter]
    split
    · rename_i he
      refine fun y v hy => (h y v hy).same ?_ hl
      unfold virqEnable
      rw [if_pos he]
      rfl
    · rename_i he
      refine h.drop fun v y hne hy => hy.keep (fun hm => ?_) (.regsSame hl)
      have hset : PdSame s (s.setIrq x fun r => { r with enable := enable }) :=
        .setIrq s x fun _ => by exact ⟨rfl, rfl, rfl⟩
      have hu := (hq.same hset).unqueued_virqCpending x
      unfold virqEnable
      rw [if_neg he, hu.pdHead, Links.mem_unlink]
      exact ⟨hm, hne⟩
  case cpending x =>
    cases hs
    refine h.drop fun v y hne hy => hy.keep (fun hm => ?_) (.regsSame (LrSame.virqCpending s x).regsSame)
    rw [(hq.unqueued_virqCpending x).pdHead, Links.mem_unlink]
    exact ⟨hm, hne⟩
  case irouter c v index value => exact h.irouter hg hs
  case flush c =>
    simp only [vgicStep] at hs
    split at hs
    · cases hs
    · obtain ⟨v, hv, rfl⟩ := Option.map_eq_some_iff.mp hs
      have hf := (flushLoop_waiting (hq.apart.nodup v) hsl hv (hg v hv) fun x hx w hw => hq.apart.once hw hx).2
      exact fun x w hx => hf w x (h x w hx)
  case sync c =>
    simp only [vgicStep] at hs
    split at hs
    · cases hs
    · obtain ⟨v, hv, rfl⟩ := Option.map_eq_some_iff.mp hs
      exact fun x w hx => (h x w hx).same (PdSame.syncIrqFromLrs cfg s c v).pdHead (hsl.syncIrqFromLrs c v).2
  case switchTo c v =>
    simp only [vgicStep] at hs
    split at hs
    · rename_i hc
      cases hs
      refine fun x w hx => (h x w hx).keep (fun hm => ?_) (.of_eq fun k hk => regs_switchTo hsl.loaded hc.2 hg w hk)
      rw [(PdSame.vcpuSwitchTo cfg s c v).pdHead]
      exact hm
    · cases hs
  case enter c =>
    simp only [vgicStep] at hs
    split at hs
    · cases hs
      exact fun x w hx => (h x w hx).same rfl ⟨rfl, rfl, rfl, rfl⟩
    · cases hs
  case exit c =>
    simp only [vgicStep] at hs
    split at hs
    · obtain ⟨v, -, rfl⟩ := Option.map_eq_some_iff.mp hs
      have h' : Slots cfg { s with guest := Function.update s.guest c false } :=
        ⟨hsl.loaded.of_vcpu rfl, hsl.index, hsl.pos⟩
      intro x w hx
      have hw : Waiting cfg { s with guest := Function.update s.guest c false } w x :=
        (h x w hx).same rfl ⟨rfl, rfl, rfl, rfl⟩
      exact hw.same (PdSame.syncIrqFromLrs cfg _ c v).pdHead (h'.syncIrqFromLrs c v).2
    · cases hs
  case ack c k =>
    simp only [vgicStep] at hs
    split at hs
    · cases hs
      exact h.ack hsl.loaded
    · cases hs
  case eoi c k =>
    simp only [vgicStep] at hs
    split at hs
    · split at hs
      · rename_i hactive
        cases hs
        refine fun x w hx => (h x w hx).keep id (.write hsl.loaded rfl rfl rfl fun _ hw => ?_)
        obtain e | e := hw <;> cases hactive.symm.trans e
      · cases hs
        exact fun x w hx => (h x w hx).keep id (.write hsl.loaded rfl rfl rfl fun _ _ => ⟨rfl, .inl rfl⟩)
      · cases hs
    · cases hs
  case poweroff c v =>
    simp only [vgicStep] at hs
    split at hs
    · cases hs
      rw [owedAfter]
      unfold vcpuPoweroff
      split
      · exact h
      rename_i hst
      obtain ⟨hshut, hcreated⟩ := not_or.mp hst
      refine h.forget fun w hw y hy => hy.keep (fun hm => ?_) fun k hk hwait => ?_
      · show y ∈ Function.update s.pdHead v [] w
        rw [Function.update_of_ne hw]
        exact hm
      · show ((s.irqCleanup cfg c v).regs cfg w k).virq = _ ∧ Waits ((s.irqCleanup cfg c v).regs cfg w k)
        rw [regs_irqCleanup hsl.loaded w hk]
        split
        · rename_i hc
          rw [regs_of_loaded hsl.loaded hc] at hwait
          exact absurd hwait (hg hshut hcreated w hc hw k hk)
        · exact ⟨rfl, hwait⟩
    · cases hs
  case irqInit v =>
    simp only [vgicStep] at hs
    split at hs
    · cases hs
      have hregs := (regs_saved hsl.loaded
        (show ({ s.irqInit v with starting := Function.update s.starting v false } : Vgic).vcpu = s.vcpu from rfl)
        (show _ = Function.update s.lr v fun _ => GicLr.zero from rfl) rfl).1
      refine h.forget fun w hw y hy => hy.keep (fun hm => ?_) (.of_eq fun k _ => by rw [hregs w hw])
      show y ∈ Function.update s.pdHead v [] w
      rw [Function.update_of_ne hw]
      exact hm
    · cases hs
  all_goals exact hidle rfl rfl

end

end Vgic
end LkHv
