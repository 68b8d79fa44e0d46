import LkHv.Vgic.System

/-!
# The list registers of the vCPUs

The list registers of a vCPU are those of the CPU it is loaded on, or else the saved ones.

* `Loaded`                    a vCPU is loaded on one CPU at most;
* `RegsSame`                  steps that leave all list registers alone, saved or not;
* `regs_write`, `regs_switchTo`   the registers of a CPU written; the vCPU of a CPU switched;
* `regs_irqCleanup`, `regs_saved`   the registers of a CPU cleared; the saved ones of a vCPU written.
-/

namespace LkHv
namespace Vgic

/-- a vCPU is loaded on one CPU of the board at most -/
structure Loaded (cfg : VgicConfig) (s : Vgic) : Prop where
  cpu : ∀ {c v}, s.vcpu c = some v → c < cfg.cpus
  once : ∀ {c d v}, s.vcpu c = some v → s.vcpu d = some v → c = d

/-- the index of an interrupt is none, or that of a list register -/
def IndexOk (cfg : VgicConfig) (s : Vgic) : Prop := ∀ x, (s.irqs x).lr = LR_INDEX_INVALID ∨ (s.irqs x).lr < cfg.lrNr

/-- the list registers, saved or not, are as before -/
structure RegsSame (s s' : Vgic) : Prop where
  lr : s'.lr = s.lr
  ichLr : s'.ichLr = s.ichLr
  vcpu : s'.vcpu = s.vcpu
  clash : s'.clash = s.clash

section
variable {cfg : VgicConfig} {s s' s'' : Vgic} {c k : Nat} {v w : VcpuId} {x y : VirqId}

theorem RegsSame.refl (s : Vgic) : RegsSame s s := ⟨rfl, rfl, rfl, rfl⟩

theorem RegsSame.trans (h : RegsSame s s') (h' : RegsSame s' s'') : RegsSame s s'' :=
  ⟨h'.lr.trans h.lr, h'.ichLr.trans h.ichLr, h'.vcpu.trans h.vcpu, h'.clash.trans h.clash⟩

theorem RegsSame.setIrq (s : Vgic) (x : VirqId) (f : VgicIrq → VgicIrq) : RegsSame s (s.setIrq x f) :=
  ⟨rfl, rfl, rfl, rfl⟩

theorem LrSame.regsSame (h : LrSame s s') : RegsSame s s' := ⟨h.lr, h.ichLr, h.vcpu, h.clash⟩

theorem RegsSame.regs (h : RegsSame s s') : s'.regs cfg = s.regs cfg := by
  funext w k
  unfold Vgic.regs loadedOn
  rw [h.vcpu, h.ichLr, h.lr]

theorem Loaded.of_vcpu (h : Loaded cfg s) (hv : s'.vcpu = s.vcpu) : Loaded cfg s' := by
  refine ⟨fun {c v} hc => ?_, fun {c d v} hc hd => ?_⟩
  · rw [hv] at hc
    exact h.cpu hc
  · rw [hv] at hc hd
    exact h.once hc hd

/-! ## which registers -/

theorem regs_of_loaded (h : Loaded cfg s) (hc : s.vcpu c = some v) : s.regs cfg v = s.ichLr c := by
  have hfind : s.loadedOn cfg v = some c := by
    unfold loadedOn
    cases hf : (List.range cfg.cpus).find? fun c => s.vcpu c = some v with
    | none =>
      have := List.find?_eq_none.mp hf c (List.mem_range.mpr (h.cpu hc))
      simp [hc] at this
    | some d =>
      have hd : s.vcpu d = some v := by simpa using List.find?_some hf
      rw [h.once hd hc]
  funext k
  unfold regs
  rw [hfind]

theorem regs_of_saved (hv : ∀ c, s.vcpu c ≠ some v) : s.regs cfg v = s.lr v := by
  have hfind : s.loadedOn cfg v = none := by
    unfold loadedOn
    rw [List.find?_eq_none]
    intro c _
    simpa using hv c
  funext k
  unfold regs
  rw [hfind]

/-- **The registers of one CPU written**: those of the vCPU that is loaded there. -/
theorem regs_write (h : Loaded cfg s) {f : Nat → GicLr} (hv : s'.vcpu = s.vcpu) (hl : s'.lr = s.lr)
    (hi : s'.ichLr = Function.update s.ichLr c f) (w : VcpuId) :
    s'.regs cfg w = if s.vcpu c = some w then f else s.regs cfg w := by
  have h' : Loaded cfg s' := h.of_vcpu hv
  split
  · rename_i hc
    rw [regs_of_loaded h' (by rw [hv]; exact hc), hi, Function.update_self]
  · rename_i hc
    by_cases hw : ∃ d, s.vcpu d = some w
    · obtain ⟨d, hd⟩ := hw
      have hdc : d ≠ c := by
        rintro rfl
        exact hc hd
      rw [regs_of_loaded h hd, regs_of_loaded h' (by rw [hv]; exact hd), hi, Function.update_of_ne hdc]
    · rw [not_exists] at hw
      rw [regs_of_saved hw, regs_of_saved (by rw [hv]; exact hw), hl]

/-! ## the switch -/

theorem vcpuSwitchTo_vcpu (cfg : VgicConfig) (s : Vgic) (c : Nat) (v : VcpuId) :
    (s.vcpuSwitchTo cfg c v).vcpu = Function.update s.vcpu c (some v) := by
  unfold vcpuSwitchTo
  split
  · rename_i h
    rw [← h, Function.update_eq_self]
  · cases s.vcpu c <;> rfl

theorem vcpuSwitchTo_same (cfg : VgicConfig) (s : Vgic) (c : Nat) (v : VcpuId) :
    (s.vcpuSwitchTo cfg c v).irqs = s.irqs ∧ (s.vcpuSwitchTo cfg c v).lrHead = s.lrHead ∧
      (s.vcpuSwitchTo cfg c v).guest = s.guest ∧ (s.vcpuSwitchTo cfg c v).clash = s.clash := by
  unfold vcpuSwitchTo
  split
  · exact ⟨rfl, rfl, rfl, rfl⟩
  · cases s.vcpu c <;> exact ⟨rfl, rfl, rfl, rfl⟩

/-- the old vCPU's registers are saved -/
theorem vcpuSwitchTo_lr (hne : s.vcpu c ≠ some v) (hk : k < cfg.lrNr) (w : VcpuId) :
    (s.vcpuSwitchTo cfg c v).lr w k = if s.vcpu c = some w then s.ichLr c k else s.lr w k := by
  unfold vcpuSwitchTo
  rw [if_neg hne]
  cases s.vcpu c with
  | none => rw [if_neg (by simp)]; rfl
  | some u =>
    show Function.update s.lr u _ w k = _
    by_cases e : w = u
    · rw [e, Function.update_self, if_pos rfl, if_pos hk]
    · rw [Function.update_of_ne e, if_neg fun e' => e (Option.some.inj e').symm]

/-- the new one's are loaded -/
theorem vcpuSwitchTo_ichLr (hne : s.vcpu c ≠ some v) (hk : k < cfg.lrNr) (d : Nat) :
    (s.vcpuSwitchTo cfg c v).ichLr d k = if d = c then s.lr v k else s.ichLr d k := by
  have hv : (s.vcpuSwitchTo cfg c v).lr v k = s.lr v k := by rw [vcpuSwitchTo_lr hne hk, if_neg hne]
  rw [← hv]
  unfold vcpuSwitchTo
  rw [if_neg hne]
  by_cases e : d = c
  · rw [e, if_pos rfl]
    show Function.update (β := fun _ => Nat → GicLr) _ c _ c k = _
    rw [Function.update_self, if_pos hk]
    rfl
  · rw [if_neg e]
    show Function.update (β := fun _ => Nat → GicLr) _ c _ d k = _
    rw [Function.update_of_ne e]
    cases s.vcpu c <;> rfl

/-- a vCPU that is loaded on no other CPU switched to -/
theorem Loaded.switchTo (h : Loaded cfg s) (hc : c < cfg.cpus) (hv : ∀ d, s.vcpu d = some v → d = c) :
    Loaded cfg (s.vcpuSwitchTo cfg c v) := by
  have hm : ∀ {d w}, (s.vcpuSwitchTo cfg c v).vcpu d = some w → d = c ∧ w = v ∨ d ≠ c ∧ s.vcpu d = some w := by
    intro d w hd
    rw [vcpuSwitchTo_vcpu] at hd
    by_cases e : d = c
    · rw [e, Function.update_self] at hd
      exact .inl ⟨e, (Option.some.inj hd).symm⟩
    · rw [Function.update_of_ne e] at hd
      exact .inr ⟨e, hd⟩
  refine ⟨fun {d w} hd => ?_, fun {d e w} hd he => ?_⟩
  · rcases hm hd with ⟨rfl, -⟩ | ⟨-, hd⟩
    · exact hc
    · exact h.cpu hd
  · rcases hm hd with ⟨rfl, rfl⟩ | ⟨hdc, hd'⟩ <;> rcases hm he with ⟨rfl, ew⟩ | ⟨hec, he'⟩
    · rfl
    · exact absurd (hv e he') hec
    · rw [ew] at hd'
      exact absurd (hv d hd') hdc
    · exact h.once hd' he'

/-- **`vcpu_switch_to` changes no register of a vCPU**, if the new one is loaded on no other CPU. -/
theorem regs_switchTo (h : Loaded cfg s) (hc : c < cfg.cpus) (hv : ∀ d, s.vcpu d = some v → d = c)
    (w : VcpuId) (hk : k < cfg.lrNr) : (s.vcpuSwitchTo cfg c v).regs cfg w k = s.regs cfg w k := by
  by_cases hne : s.vcpu c = some v
  · unfold vcpuSwitchTo
    rw [if_pos hne]
  have h' := h.switchTo hc hv
  have hsaved : ∀ d, s.vcpu d ≠ some v := by
    intro d hd
    rw [hv d hd] at hd
    exact hne hd
  by_cases ew : w = v
  · have hcv : (s.vcpuSwitchTo cfg c v).vcpu c = some v := by rw [vcpuSwitchTo_vcpu, Function.update_self]
    rw [ew, regs_of_loaded h' hcv, regs_of_saved hsaved, vcpuSwitchTo_ichLr hne hk, if_pos rfl]
  by_cases hd : ∃ d, s.vcpu d = some w ∧ d ≠ c
  · obtain ⟨d, hd, hdc⟩ := hd
    have hd' : (s.vcpuSwitchTo cfg c v).vcpu d = some w := by rw [vcpuSwitchTo_vcpu, Function.update_of_ne hdc, hd]
    rw [regs_of_loaded h hd, regs_of_loaded h' hd', vcpuSwitchTo_ichLr hne hk, if_neg hdc]
  -- the vCPU that was saved, or one that is loaded nowhere
  have hw' : ∀ d, (s.vcpuSwitchTo cfg c v).vcpu d ≠ some w := by
    intro d
    rw [vcpuSwitchTo_vcpu]
    by_cases e : d = c
    · rw [e, Function.update_self]
      exact fun e' => ew (Option.some.inj e').symm
    · rw [Function.update_of_ne e]
      exact fun hd' => hd ⟨d, hd', e⟩
  rw [regs_of_saved hw', vcpuSwitchTo_lr hne hk]
  split
  · rename_i hw
    rw [regs_of_loaded h hw]
  · rename_i hw
    rw [regs_of_saved]
    intro d hd'
    by_cases e : d = c
    · exact hw (e ▸ hd')
    · exact hd ⟨d, hd', e⟩

/-! ## clean-up and start -/

/-- the registers after `hv_vcpu_irq_cleanup` on the CPU `c` -/
theorem regs_irqCleanup (h : Loaded cfg s) (w : VcpuId) (hk : k < cfg.lrNr) :
    (s.irqCleanup cfg c v).regs cfg w k = if s.vcpu c = some w then GicLr.zero else s.regs cfg w k := by
  rw [regs_write h (show (s.irqCleanup cfg c v).vcpu = s.vcpu from rfl) rfl rfl]
  split
  · exact if_pos hk
  · rfl

/-- the saved registers of `v` written -/
theorem regs_saved {f : Nat → GicLr} (h : Loaded cfg s) (hv : s'.vcpu = s.vcpu)
    (hl : s'.lr = Function.update s.lr v f) (hi : s'.ichLr = s.ichLr) : (∀ w, w ≠ v → s'.regs cfg w = s.regs cfg w) ∧
      ((∃ d, s.vcpu d = some v) ∧ s'.regs cfg v = s.regs cfg v ∨ s'.regs cfg v = f) := by
  have h' : Loaded cfg s' := h.of_vcpu hv
  have hloaded : ∀ {w d}, s.vcpu d = some w → s'.regs cfg w = s.regs cfg w := by
    intro w d hd
    rw [regs_of_loaded h hd, regs_of_loaded h' (by rw [hv]; exact hd), hi]
  refine ⟨fun w hw => ?_, ?_⟩
  · by_cases hd : ∃ d, s.vcpu d = some w
    · obtain ⟨d, hd⟩ := hd
      exact hloaded hd
    · rw [not_exists] at hd
      rw [regs_of_saved hd, regs_of_saved (by rw [hv]; exact hd), hl, Function.update_of_ne hw]
  · by_cases hd : ∃ d, s.vcpu d = some v
    · obtain ⟨d, hd⟩ := hd
      exact .inl ⟨⟨d, hd⟩, hloaded hd⟩
    · rw [not_exists] at hd
      rw [regs_of_saved (by rw [hv]; exact hd), hl, Function.update_self]
      exact .inr rfl

end

end Vgic
end LkHv
