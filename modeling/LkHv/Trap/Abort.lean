import LkHv.Mmio.Space

/-!
# Loads and stores of the guest (`hv/arch/armv8a/hv_arch_traps.c`, `hv/hv_mmio.c`)

The frame of a trap is an array of words: `r[30]`, then `lr`, `usp`, `elr` and `spsr`.  `hv_data_abort` takes
`lr` for x30 where it stores and nothing for x30 where it loads, and hands a null pointer to
`hv_mmio_handler`, which stores there.

* `hvMmioHandler`, `hvDataAbort`, `hvIoEmulation`   the source's, with a log of what they touch;
* `RegsOnly`            only the register of the instruction is touched, and a write passes its value;
* `trap_registers`      exactly when that holds;
* `trap_registers_fails`   a load to x30 from a device stores at address 0.
-/

namespace LkHv.Trap
universe u

/-- a register -/
abbrev Reg := BitVec 64

/-- `struct arm64_iframe_long`, as its words -/
structure Iframe where
  word : Nat → Reg

namespace Iframe

def lr (f : Iframe) : Reg := f.word 30
def elr (f : Iframe) : Reg := f.word 32
def spsr (f : Iframe) : Reg := f.word 33

def set (f : Iframe) (i : Nat) (v : Reg) : Iframe := ⟨Function.update f.word i v⟩

/-- the register an instruction names: x0 to x30, and zero for 31 -/
def x (f : Iframe) (n : Nat) : Reg := if n = 31 then 0 else f.word n

theorem set_word_of_ne (f : Iframe) {i j : Nat} (v : Reg) (h : j ≠ i) : (f.set i v).word j = f.word j :=
  Function.update_of_ne h ..

end Iframe

/-- the system registers the handlers use -/
structure SysRegs where
  esrEl2 : Reg
  farEl2 : Reg
  hpfarEl2 : Reg
  spsrEl2 : Reg
  vbarEl1 : Reg
  cpacrEl1 : Reg
  spsrEl1 : Reg
  elrEl1 : Reg
  esrEl1 : Reg
  farEl1 : Reg

/-- what the handlers do outside their own variables; frame words are those of the array `r` -/
inductive Act
  | load (i : Nat)
  | store (i : Nat) (v : Reg)
  | storeAt (addr : Reg) (v : Reg)
  | mmioRead (addr : Reg) (len : Nat)
  | mmioWrite (addr : Reg) (len : Nat) (data : Reg)
  | sgi (value : Reg)
  | hypercall
  | inject

/-- `struct mmio_ops` with their argument: a read gets the eight bytes `*data` and leaves them as it likes -/
structure MmioOps (σ : Type u) where
  read : σ → Reg → Nat → Reg → σ × Int × Reg
  write : σ → Reg → Nat → Reg → σ × Int

/-- the state of a trap; `vm` is the state of the devices -/
structure State (σ : Type u) where
  frame : Iframe
  sys : SysRegs
  vm : σ
  log : List Act

variable {σ : Type u}

namespace State

def act (t : State σ) (a : Act) : State σ := { t with log := t.log ++ [a] }

/-- a trap just taken -/
def take (frame : Iframe) (sys : SysRegs) (vm : σ) : State σ := ⟨frame, sys, vm, []⟩

end State

/-! ## `hv_mmio_handler` -/

/-- `data` of `hv_mmio_handler`: a value to write, or a pointer -/
inductive Arg
  | value (v : Reg)
  | word (i : Nat)
  | null

/-- `1 << n` of type `int`, as 64 bits (the shift takes `n` modulo 32 on the hardware) -/
def intShl1 (n : Nat) : Reg := ((1#32) <<< (n % 32)).signExtend 64

/-- `(uint64_t)(~0) << n` (the shift takes `n` modulo 64 on the hardware) -/
def onesShl (n : Nat) : Reg := BitVec.allOnes 64 <<< (n % 64)

/-- the sign extension of `hv_mmio_handler` -/
def extend (isSigned : Bool) (len : Nat) (retData : Reg) : Reg :=
  if isSigned ∧ intShl1 (len * 8 - 1) &&& retData ≠ 0 then retData ||| onesShl (len * 8) else retData

/-- `*dest = ret_data` -/
def storeDest (t : State σ) (dest : Arg) (retData : Reg) : State σ :=
  match dest with
  | .word i => { t with frame := t.frame.set i retData, log := t.log ++ [.store i retData] }
  | .null => t.act (.storeAt 0 retData)
  | .value v => t.act (.storeAt v retData)

def Arg.toReg : Arg → Reg
  | .value v => v
  | _ => 0

/-- `junk` is what lies in the uninitialised `ret_data` -/
def hvMmioHandler (space : Mmio.RbTree (MmioOps σ)) (t : State σ) (addr : Reg) (len : Nat) (isWrite : Bool)
    (data : Arg) (isSigned : Bool) (junk : Reg) : State σ × Int :=
  match Mmio.mmioSpaceFind space addr.toNat len with
  | none => (t, 0)
  | some mmio =>
    if isWrite then
      let r := mmio.dev.write t.vm addr len data.toReg
      ({ t with vm := r.1 }.act (.mmioWrite addr len data.toReg), r.2)
    else
      let r := mmio.dev.read t.vm addr len junk
      (storeDest ({ t with vm := r.1 }.act (.mmioRead addr len)) data (extend isSigned len r.2.2), r.2.1)

/-! ## `hv_data_abort` -/

/-- `da_iss.bits` -/
def daIss (esr : BitVec 32) : BitVec 32 := esr &&& 0x1ffffff#32

def dfsc (iss : BitVec 32) : BitVec 6 := iss.extractLsb' 0 6
def wnr (iss : BitVec 32) : Bool := iss.getLsbD 6
def srt (iss : BitVec 32) : Nat := (iss.extractLsb' 16 5).toNat
def sse (iss : BitVec 32) : Bool := iss.getLsbD 21
def sas (iss : BitVec 32) : Nat := (iss.extractLsb' 22 2).toNat
def isv (iss : BitVec 32) : Bool := iss.getLsbD 24

def FSC_FLT_TRANS : BitVec 6 := 0x04

/-- the IPA that faulted -/
def faultIpa (sys : SysRegs) : Reg := ((sys.hpfarEl2 &&& ~~~0xf#64) <<< (12 - 4)) ||| (sys.farEl2 &&& 0xfff#64)

/-- `data`: the register to write, or the place for what is read -/
def abortData (t : State σ) (iss : BitVec 32) : State σ × Arg :=
  if wnr iss then
    if srt iss = 31 then (t, .value 0) else (t.act (.load (srt iss)), .value (t.frame.word (srt iss)))
  else if srt iss < 30 then (t, .word (srt iss)) else (t, .null)

/-- the length of the access -/
def accessLen (esr : BitVec 32) : Nat := 1 <<< sas (daIss esr)

def hvDataAbort (space : Mmio.RbTree (MmioOps σ)) (t : State σ) (esr : BitVec 32) (junk : Reg) : State σ × Int :=
  let iss := daIss esr
  if isv iss = false then (t, 0)
  else
    let d := abortData t iss
    if dfsc iss &&& FSC_FLT_TRANS ≠ 0 then
      hvMmioHandler space d.1 (faultIpa t.sys) (accessLen esr) (wnr iss) d.2 (sse iss) junk
    else (d.1, 0)

/-! ## `hv_io_emulation` -/

/-- `e_esr.direction`: a read -/
def direction (esr : BitVec 32) : Bool := esr.getLsbD 0
def rt (esr : BitVec 32) : Nat := (esr.extractLsb' 5 5).toNat

def IO_REG_MASK : BitVec 32 := 0b00000000001111111111110000011110
def SGI1R_EL1_VALUE : BitVec 32 := 0b00000000001110100011000000010110

/-- the syndrome of an access to `ICC_SGI1R_EL1` -/
def IsSgi1r (esr : BitVec 32) : Prop := esr &&& IO_REG_MASK = SGI1R_EL1_VALUE

instance (esr : BitVec 32) : Decidable (IsSgi1r esr) := by unfold IsSgi1r; infer_instance

/-- `value`: the register to write -/
def ioValue (t : State σ) (esr : BitVec 32) : State σ × Reg :=
  if direction esr = false then (t.act (.load (rt esr)), t.frame.word (rt esr)) else (t, 0)

/-- `sgi` is `gic_sgi_emulation` -/
def hvIoEmulation (sgi : σ → Reg → σ) (t : State σ) (esr : BitVec 32) : State σ × Int :=
  let v := ioValue t esr
  if IsSgi1r esr then ({ v.1 with vm := sgi v.1.vm v.2 }.act (.sgi v.2), 1) else (v.1, 0)

/-! ## what is touched -/

/-- From `t` to `t'` only register `n` was touched: it alone was loaded or stored to, nothing was stored outside
the frame, the other words of the frame are as before, and a write passed the value of the register. -/
structure RegsOnly (n : Nat) (isWrite : Bool) (t t' : State σ) : Prop where
  loads : ∀ i, Act.load i ∈ t'.log → i = n ∧ n < 31
  stores : ∀ i v, Act.store i v ∈ t'.log → i = n ∧ n < 31
  elsewhere : ∀ a v, Act.storeAt a v ∉ t'.log
  frame : ∀ i, i ≠ n ∨ n = 31 → t'.frame.word i = t.frame.word i
  passed : isWrite → (∀ a l d, Act.mmioWrite a l d ∈ t'.log → d = t.frame.x n) ∧
    ∀ v, Act.sgi v ∈ t'.log → v = t.frame.x n

/-- the range the access is in -/
def hit (space : Mmio.RbTree (MmioOps σ)) (sys : SysRegs) (esr : BitVec 32) : Option (Mmio.MmioItem (MmioOps σ)) :=
  Mmio.mmioSpaceFind space (faultIpa sys).toNat (accessLen esr)

/-- the abort is emulated: a translation fault with a valid syndrome, in the range of a device -/
def Reaches (space : Mmio.RbTree (MmioOps σ)) (sys : SysRegs) (esr : BitVec 32) : Prop :=
  isv (daIss esr) ∧ dfsc (daIss esr) &&& FSC_FLT_TRANS ≠ 0 ∧ (hit space sys esr).isSome

theorem srt_lt (iss : BitVec 32) : srt iss < 32 := (iss.extractLsb' 16 5).isLt

theorem rt_lt (esr : BitVec 32) : rt esr < 32 := (esr.extractLsb' 5 5).isLt

/-! ## `hv_data_abort`, case by case -/

section
variable {space : Mmio.RbTree (MmioOps σ)} {f : Iframe} {sys : SysRegs} {vm : σ} {esr : BitVec 32} {junk : Reg}
  {m : Mmio.MmioItem (MmioOps σ)}

theorem hvMmioHandler_write {t : State σ} {addr : Reg} {len : Nat} {data : Arg} {isSigned : Bool}
    (hm : Mmio.mmioSpaceFind space addr.toNat len = some m) : hvMmioHandler space t addr len true data isSigned junk =
      ({ t with vm := (m.dev.write t.vm addr len data.toReg).1 }.act (.mmioWrite addr len data.toReg),
        (m.dev.write t.vm addr len data.toReg).2) := by
  unfold hvMmioHandler
  rw [hm]
  rfl

theorem hvMmioHandler_read {t : State σ} {addr : Reg} {len : Nat} {data : Arg} {isSigned : Bool}
    (hm : Mmio.mmioSpaceFind space addr.toNat len = some m) :
    hvMmioHandler space t addr len false data isSigned junk =
      (storeDest ({ t with vm := (m.dev.read t.vm addr len junk).1 }.act (.mmioRead addr len)) data
        (extend isSigned len (m.dev.read t.vm addr len junk).2.2), (m.dev.read t.vm addr len junk).2.1) := by
  unfold hvMmioHandler
  rw [hm]
  rfl

theorem hvMmioHandler_none {t : State σ} {addr : Reg} {len : Nat} {isWrite : Bool} {data : Arg} {isSigned : Bool}
    (hm : Mmio.mmioSpaceFind space addr.toNat len = none) :
    hvMmioHandler space t addr len isWrite data isSigned junk = (t, 0) := by
  unfold hvMmioHandler
  rw [hm]

theorem hvDataAbort_eq (hv : isv (daIss esr)) (hf : dfsc (daIss esr) &&& FSC_FLT_TRANS ≠ 0) (t : State σ) :
    hvDataAbort space t esr junk = hvMmioHandler space (abortData t (daIss esr)).1 (faultIpa t.sys) (accessLen esr)
      (wnr (daIss esr)) (abortData t (daIss esr)).2 (sse (daIss esr)) junk := by
  unfold hvDataAbort
  dsimp only
  rw [hv, if_neg Bool.noConfusion, if_pos hf]

/-- a write passes the register it names -/
theorem abortData_write (hw : wnr (daIss esr)) (t : State σ) :
    ∃ ls, (ls = [] ∨ ls = [Act.load (srt (daIss esr))] ∧ srt (daIss esr) ≠ 31) ∧
      abortData t (daIss esr) = ({ t with log := t.log ++ ls }, .value (t.frame.x (srt (daIss esr)))) := by
  unfold abortData Iframe.x
  rw [if_pos hw]
  by_cases h31 : srt (daIss esr) = 31
  · rw [if_pos h31, if_pos h31]
    exact ⟨[], .inl rfl, by rw [List.append_nil]⟩
  · rw [if_neg h31, if_neg h31]
    exact ⟨_, .inr ⟨rfl, h31⟩, rfl⟩

variable (f vm junk)

theorem hvDataAbort_write (hv : isv (daIss esr)) (hf : dfsc (daIss esr) &&& FSC_FLT_TRANS ≠ 0)
    (hm : hit space sys esr = some m) (hw : wnr (daIss esr)) :
    ∃ ls, (ls = [] ∨ ls = [Act.load (srt (daIss esr))] ∧ srt (daIss esr) ≠ 31) ∧
      hvDataAbort space (.take f sys vm) esr junk =
        let r := m.dev.write vm (faultIpa sys) (accessLen esr) (f.x (srt (daIss esr)))
        (⟨f, sys, r.1, ls ++ [.mmioWrite (faultIpa sys) (accessLen esr) (f.x (srt (daIss esr)))]⟩, r.2) := by
  obtain ⟨ls, hls, hd⟩ := abortData_write hw (.take f sys vm)
  refine ⟨ls, hls, ?_⟩
  rw [hvDataAbort_eq hv hf, hd, hw]
  exact (hvMmioHandler_write hm).trans rfl

theorem hvDataAbort_read (hv : isv (daIss esr)) (hf : dfsc (daIss esr) &&& FSC_FLT_TRANS ≠ 0)
    (hm : hit space sys esr = some m) (hw : wnr (daIss esr) = false) (hn : srt (daIss esr) < 30) :
    hvDataAbort space (.take f sys vm) esr junk = let r := m.dev.read vm (faultIpa sys) (accessLen esr) junk
      let v := extend (sse (daIss esr)) (accessLen esr) r.2.2
      (⟨f.set (srt (daIss esr)) v, sys, r.1,
        [.mmioRead (faultIpa sys) (accessLen esr), .store (srt (daIss esr)) v]⟩, r.2.1) := by
  have hd : abortData (.take f sys vm) (daIss esr) = (.take f sys vm, .word (srt (daIss esr))) := by
    unfold abortData
    rw [hw, if_neg Bool.noConfusion, if_pos hn]
  rw [hvDataAbort_eq hv hf, hd, hw]
  exact (hvMmioHandler_read hm).trans rfl

/-- the pointer is null -/
theorem hvDataAbort_null (hv : isv (daIss esr)) (hf : dfsc (daIss esr) &&& FSC_FLT_TRANS ≠ 0)
    (hm : hit space sys esr = some m) (hw : wnr (daIss esr) = false) (hn : ¬srt (daIss esr) < 30) :
    hvDataAbort space (.take f sys vm) esr junk = let r := m.dev.read vm (faultIpa sys) (accessLen esr) junk
      (⟨f, sys, r.1, [.mmioRead (faultIpa sys) (accessLen esr),
        .storeAt 0 (extend (sse (daIss esr)) (accessLen esr) r.2.2)]⟩, r.2.1) := by
  have hd : abortData (.take f sys vm) (daIss esr) = (.take f sys vm, .null) := by
    unfold abortData
    rw [hw, if_neg Bool.noConfusion, if_neg hn]
  rw [hvDataAbort_eq hv hf, hd, hw]
  exact (hvMmioHandler_read hm).trans rfl

/-- no device is reached -/
theorem hvDataAbort_miss (h : ¬Reaches space sys esr) :
    ∃ ls, (ls = [] ∨ ls = [Act.load (srt (daIss esr))] ∧ srt (daIss esr) ≠ 31) ∧
      hvDataAbort space (.take f sys vm) esr junk = (⟨f, sys, vm, ls⟩, 0) := by
  cases hv : isv (daIss esr) with
  | false =>
    refine ⟨[], .inl rfl, ?_⟩
    unfold hvDataAbort
    dsimp only
    rw [if_pos hv]
    rfl
  | true =>
    have hd : hvDataAbort space (.take f sys vm) esr junk = ((abortData (.take f sys vm) (daIss esr)).1, 0) := by
      by_cases hf : dfsc (daIss esr) &&& FSC_FLT_TRANS ≠ 0
      · rw [hvDataAbort_eq hv hf]
        have hm : ¬(hit space sys esr).isSome := fun hm => h ⟨hv, hf, hm⟩
        exact hvMmioHandler_none (Option.not_isSome_iff_eq_none.mp hm)
      · unfold hvDataAbort
        dsimp only
        rw [hv, if_neg Bool.noConfusion, if_neg hf]
    rw [hd]
    cases hw : wnr (daIss esr) with
    | true =>
      obtain ⟨ls, hls, h1⟩ := abortData_write hw (.take f sys vm)
      exact ⟨ls, hls, by rw [h1]; rfl⟩
    | false =>
      refine ⟨[], .inl rfl, ?_⟩
      unfold abortData
      rw [hw, if_neg Bool.noConfusion]
      split <;> rfl

end

/-! ## `hv_io_emulation`, case by case -/

theorem hvIoEmulation_write {sgi : σ → Reg → σ} {f : Iframe} {sys : SysRegs} {vm : σ} {esr : BitVec 32}
    (hd : direction esr = false) : hvIoEmulation sgi (.take f sys vm) esr = if IsSgi1r esr then
        (⟨f, sys, sgi vm (f.word (rt esr)), [.load (rt esr), .sgi (f.word (rt esr))]⟩, 1)
      else (⟨f, sys, vm, [.load (rt esr)]⟩, 0) := by
  unfold hvIoEmulation ioValue
  rw [if_pos hd]
  rfl

theorem hvIoEmulation_read {sgi : σ → Reg → σ} {f : Iframe} {sys : SysRegs} {vm : σ} {esr : BitVec 32}
    (hd : direction esr = true) : hvIoEmulation sgi (.take f sys vm) esr =
      if IsSgi1r esr then (⟨f, sys, sgi vm 0, [.sgi 0]⟩, 1) else (⟨f, sys, vm, []⟩, 0) := by
  unfold hvIoEmulation ioValue
  rw [hd, if_neg (show ¬true = false from Bool.noConfusion)]
  rfl

/-! ## which registers -/

/-- the log of a write -/
theorem RegsOnly.ofWrite {n : Nat} {isWrite : Bool} {t t' : State σ} {ls as : List Act} (hn : n < 32)
    (hls : ls = [] ∨ ls = [Act.load n] ∧ n ≠ 31) (hl : t'.log = ls ++ as) (hf : t'.frame = t.frame)
    (has : as = [] ∨ (∃ a l, as = [Act.mmioWrite a l (t.frame.x n)]) ∨ as = [Act.sgi (t.frame.x n)]) :
    RegsOnly n isWrite t t' := by
  have hmem : ∀ a ∈ t'.log, a = Act.load n ∧ n < 31 ∨ (∃ p l, a = Act.mmioWrite p l (t.frame.x n)) ∨
      a = Act.sgi (t.frame.x n) := by
    intro a ha
    rw [hl] at ha
    rcases List.mem_append.mp ha with ha | ha
    · rcases hls with rfl | ⟨rfl, h31⟩
      · cases ha
      · exact .inl ⟨List.mem_singleton.mp ha, by omega⟩
    · rcases has with rfl | ⟨p, l, rfl⟩ | rfl
      · cases ha
      · exact .inr (.inl ⟨p, l, List.mem_singleton.mp ha⟩)
      · exact .inr (.inr (List.mem_singleton.mp ha))
  refine ⟨?_, ?_, ?_, fun _ _ => by rw [hf], fun _ => ⟨?_, ?_⟩⟩
  · intro i hi
    rcases hmem _ hi with ⟨h1, h2⟩ | ⟨_, _, h1⟩ | h1
    · cases h1
      exact ⟨rfl, h2⟩
    · cases h1
    · cases h1
  · intro i v hi
    rcases hmem _ hi with ⟨h1, -⟩ | ⟨_, _, h1⟩ | h1 <;> cases h1
  · intro a v hi
    rcases hmem _ hi with ⟨h1, -⟩ | ⟨_, _, h1⟩ | h1 <;> cases h1
  · intro a l d hi
    rcases hmem _ hi with ⟨h1, -⟩ | ⟨_, _, h1⟩ | h1 <;> cases h1
    rfl
  · intro v hi
    rcases hmem _ hi with ⟨h1, -⟩ | ⟨_, _, h1⟩ | h1 <;> cases h1
    rfl

theorem RegsOnly.dataAbort {space : Mmio.RbTree (MmioOps σ)} {f : Iframe} {sys : SysRegs} {vm : σ}
    {esr : BitVec 32} {junk : Reg} :
    RegsOnly (srt (daIss esr)) (wnr (daIss esr)) (.take f sys vm) (hvDataAbort space (.take f sys vm) esr junk).1 ↔
      ¬(wnr (daIss esr) = false ∧ 30 ≤ srt (daIss esr) ∧ Reaches space sys esr) := by
  have hlt := srt_lt (daIss esr)
  by_cases h : Reaches space sys esr
  · obtain ⟨hv, hf, hm⟩ := id h
    obtain ⟨m, hm⟩ := Option.isSome_iff_exists.mp hm
    cases hw : wnr (daIss esr) with
    | true =>
      obtain ⟨ls, hls, he⟩ := hvDataAbort_write f vm junk hv hf hm hw
      rw [he]
      exact ⟨fun _ h0 => Bool.noConfusion h0.1, fun _ => .ofWrite hlt hls rfl rfl (.inr (.inl ⟨_, _, rfl⟩))⟩
    | false =>
      by_cases hn : srt (daIss esr) < 30
      · rw [hvDataAbort_read f vm junk hv hf hm hw hn]
        refine ⟨fun _ h0 => by lia, fun _ => ⟨?_, ?_, ?_, ?_, fun h0 => Bool.noConfusion h0⟩⟩
        · intro i hi
          simp at hi
        · intro i v hi
          simp at hi
          lia
        · intro a v hi
          simp at hi
        · intro i hi
          exact Iframe.set_word_of_ne f _ (by lia)
      · rw [hvDataAbort_null f vm junk hv hf hm hw hn]
        constructor
        · intro h0
          exact absurd (.tail _ (.head _)) (h0.elsewhere _ _)
        · intro h0
          exact absurd ⟨rfl, by lia, h⟩ h0
  · obtain ⟨ls, hls, he⟩ := hvDataAbort_miss f vm junk h
    rw [he]
    exact ⟨fun _ h0 => h h0.2.2, fun _ => .ofWrite hlt hls (List.append_nil ls).symm rfl (.inl rfl)⟩

theorem RegsOnly.ioEmulation {sgi : σ → Reg → σ} {f : Iframe} {sys : SysRegs} {vm : σ} {esr : BitVec 32} :
    RegsOnly (rt esr) (!direction esr) (.take f sys vm) (hvIoEmulation sgi (.take f sys vm) esr).1 ↔
      ¬(direction esr = false ∧ rt esr = 31) := by
  have hlt := rt_lt esr
  cases hd : direction esr with
  | true =>
    rw [hvIoEmulation_read hd]
    refine ⟨fun _ h0 => Bool.noConfusion h0.1, fun _ => ?_⟩
    split
    · exact ⟨by simp, by simp, by simp, fun _ _ => rfl, fun h0 => Bool.noConfusion h0⟩
    · exact ⟨by simp, by simp, by simp, fun _ _ => rfl, fun h0 => Bool.noConfusion h0⟩
  | false =>
    rw [hvIoEmulation_write hd]
    constructor
    · rintro h0 ⟨-, h31⟩
      have := (h0.loads (rt esr) (by split <;> exact .head _)).2
      omega
    · intro h0
      have h31 : rt esr ≠ 31 := fun h31 => h0 ⟨rfl, h31⟩
      have hx : f.word (rt esr) = f.x (rt esr) := (if_neg h31).symm
      rw [hx]
      split
      · exact .ofWrite hlt (.inr ⟨rfl, h31⟩) rfl rfl (.inr (.inr rfl))
      · exact .ofWrite hlt (.inr ⟨rfl, h31⟩) rfl rfl (.inl rfl)

/-- **The registers of a trap.**  A data abort with a valid syndrome touches only the register it names unless
it is a load from a device to x30 or xzr; an access to an emulated system register touches only its own unless
it is a write of xzr. -/
theorem trap_registers (space : Mmio.RbTree (MmioOps σ)) (sgi : σ → Reg → σ) (f : Iframe) (sys : SysRegs) (vm : σ)
    (esr : BitVec 32) (junk : Reg) :
    (RegsOnly (srt (daIss esr)) (wnr (daIss esr)) (.take f sys vm)
        (hvDataAbort space (.take f sys vm) esr junk).1 ↔
      ¬(wnr (daIss esr) = false ∧ 30 ≤ srt (daIss esr) ∧ Reaches space sys esr)) ∧
    ((IsSgi1r esr → RegsOnly (rt esr) (!direction esr) (.take f sys vm)
        (hvIoEmulation sgi (.take f sys vm) esr).1) ↔
      ¬(IsSgi1r esr ∧ direction esr = false ∧ rt esr = 31)) := by
  refine ⟨RegsOnly.dataAbort, ?_⟩
  rw [RegsOnly.ioEmulation]
  constructor
  · rintro h ⟨h1, h2⟩
    exact h h1 h2
  · intro h h1 h2
    exact h ⟨h1, h2⟩

/-- a space with one device, at `0x8000000` -/
def oneDevice : Mmio.RbTree (MmioOps Unit) :=
  .node .nil ⟨0x8000000, 0x20000, ⟨fun _ _ _ _ => ((), 1, 7), fun _ _ _ _ => ((), 1)⟩⟩ .nil

/-- the system registers after a fault on `0x8000000` -/
def deviceFault : SysRegs := ⟨0, 0x8000000, 0x80000, 0, 0, 0, 0, 0, 0, 0⟩

/-- Not so for `ldr w30` from a device: what was read is stored at address 0, and x30 stays as it was. -/
theorem trap_registers_fails :
    ¬RegsOnly (srt (daIss 0x939e0006)) (wnr (daIss 0x939e0006)) (.take ⟨fun _ => 0⟩ deviceFault ())
      (hvDataAbort oneDevice (.take ⟨fun _ => 0⟩ deviceFault ()) 0x939e0006 0).1 := by
  intro h
  have hr : Reaches oneDevice deviceFault 0x939e0006 := by
    unfold Reaches
    decide
  exact RegsOnly.dataAbort.mp h ⟨by decide, by decide, hr⟩

end LkHv.Trap
