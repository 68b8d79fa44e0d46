import LkHv.Boot.VmConfig
import Mathlib.Algebra.Order.Group.Int

/-!
# What the parsers of the configuration read

* `Needs`, `Exact`, `Bounded`   the claim: no read behind a value, no store outside of an array, and what is accepted
  has the lengths that the cells need;
* `vcpuStations`, `vmStations`, `irqStations`, `cfgStations`   the properties as they are looked at;
* `fdtNextCell_walks`, `affinityLoop_walks`   the loops;
* `vm_config_bounded`  **when the parsers are bounded**;
* `vm_config_unbounded`   registers of three regions, of which there are two.
-/

namespace LkHv
namespace VmConfig
open Libc Checked

/-! ## the law -/

/-- properties, and the lengths that they need -/
abbrev Needs := List (Option (List Byte) × Int)

/-- what is there has the length that is needed -/
def Exact (needs : Needs) : Prop := ∀ p ∈ needs, ∀ v ∈ p.1, (v.length : Int) = p.2

/-- the parser stays inside, and what it accepts has the lengths that it needs -/
def Bounded {α : Type} (x : Cfg α) (needs : Needs) : Prop := NoFault x ∧ ∀ a, Returns x a → Exact needs

/-- the number in front of a value -/
def intOf : Option (List Byte) → Int
  | some (b0 :: b1 :: b2 :: b3 :: _) => (word b0 b1 b2 b3).toInt
  | _ => 0

/-- `parse_vcpu_cfg` -/
def vcpuNeeds (t : Fdt) (node : Int) : Needs :=
  [(t.getprop node "cpu_num", 4), (t.getprop node "mode", 4),
    (t.getprop node "affinity", 4 * intOf (t.getprop node "cpu_num"))]

/-- `parse_vm_cfg` -/
def vmNeeds (t : Fdt) (addressCell cellSize : Int) (i : Nat) : Needs :=
  let node := t.pathOffset (vmPath i)
  [(t.getprop node "os_typs", 4), (t.getprop node "priority", 4), (t.getprop node "timeslice", 4),
    (t.getprop node "image_type", 4), (t.getprop node "auto_boot", 4),
    (t.getprop node "ram_reg", 4 * (addressCell + cellSize))] ++ vcpuNeeds t (t.subnodeOffset node "cpus")

/-- `hv_vm_irq_cfg_get` -/
def irqNeeds (t : Fdt) (cfgOffset : Int) : Needs :=
  let node := t.subnodeOffset cfgOffset "intc"
  let num := intOf (t.getprop node "#redistributor-regions")
  [(t.getprop node "#redistributor-regions", 4),
    (t.getprop node "reg", 4 * (fdtAddressCells t node + fdtSizeCells t node) * (if num = 2 then 3 else 2))]

/-! ## the stations -/

/-- a string, or as many bytes as are copied -/
def Terminated (v : List Byte) : Prop := 0 ∈ v ∨ HV_BUFFER_MIN_LEN - 1 ≤ v.length

def strFits (v : Option (List Byte)) : Station := ⟨∀ b ∈ v, Terminated b, True⟩

def intFits (v : Option (List Byte)) : Station := ⟨∀ b ∈ v, 4 ≤ b.length, True⟩

/-- the value has `n` cells behind the first `f` -/
def cellsFit (v : Option (List Byte)) (f n : Int) : Station := ⟨∀ b ∈ v, 0 ≤ n ∧ 4 * (f + n) ≤ b.length, True⟩

def there (v : Option (List Byte)) : Station := .check (v.isSome = true)

def vcpuStations (t : Fdt) (malloc : Nat → Bool) (node : Int) : List Station :=
  let num := intOf (t.getprop node "cpu_num")
  let affinity := t.getprop node "affinity"
  [intFits (t.getprop node "cpu_num"), there (t.getprop node "cpu_num"), intFits (t.getprop node "mode"),
    there (t.getprop node "mode"), .check (malloc (intsSize num) = true), there affinity,
    .check (∀ v ∈ affinity, (v.length : Int) = toInt (intsSize num)), ⟨∀ v ∈ affinity, 4 * num ≤ v.length, True⟩]

def vmStations (t : Fdt) (malloc : Nat → Bool) (addressCell cellSize : Int) (i : Nat) : List Station :=
  let node := t.pathOffset (vmPath i)
  let ram := t.getprop node "ram_reg"
  let cpus := t.subnodeOffset node "cpus"
  [.check (0 ≤ node), there (t.getprop node "image"), strFits (t.getprop node "image"),
    strFits (t.getprop node "fdt"), there (t.getprop node "lable"), strFits (t.getprop node "lable"),
    intFits (t.getprop node "os_typs"), there (t.getprop node "os_typs"),
    intFits (t.getprop node "priority"), there (t.getprop node "priority"),
    .check (intOf (t.getprop node "priority") ≤ HIGHEST_PRIORITY),
    intFits (t.getprop node "timeslice"), there (t.getprop node "timeslice"),
    intFits (t.getprop node "image_type"), there (t.getprop node "image_type"),
    intFits (t.getprop node "auto_boot"), there ram,
    .check (∀ v ∈ ram, 4 * (addressCell + cellSize) ≤ v.length), cellsFit ram 0 addressCell,
    cellsFit ram addressCell cellSize, .check (0 ≤ cpus)] ++ vcpuStations t malloc cpus

def irqStations (t : Fdt) (cfgOffset : Int) : List Station :=
  let node := t.subnodeOffset cfgOffset "intc"
  let a := fdtAddressCells t node
  let c := fdtSizeCells t node
  let reg := t.getprop node "reg"
  let regions := t.getprop node "#redistributor-regions"
  [.check (0 ≤ node), intFits regions, there regions, there reg, cellsFit reg 0 a, cellsFit reg a c,
    cellsFit reg (a + c) a, cellsFit reg (a + c + a) c] ++
  if intOf regions = 2 then [cellsFit reg (a + c + a + c) a, cellsFit reg (a + c + a + c + a) c] else []

def loopStations (t : Fdt) (env : Env) (addressCell cellSize : Int) : Nat → Nat → List Station
  | 0, _ => []
  | n + 1, i =>
    .check (env.allocVm i = true) :: (vmStations t (env.malloc i) addressCell cellSize i ++
      .check (env.initVm i = true) :: loopStations t env addressCell cellSize n (i + 1))

def cfgStations (t : Fdt) (env : Env) : List Station :=
  let root := t.pathOffset "/"
  let num := t.getprop root "num-vms"
  [.check (0 ≤ root), intFits num, there num,
    ⟨Safe (loopStations t env (fdtAddressCells t root) (fdtSizeCells t root) (intOf num).toNat 0), True⟩]

/-! ## the reads -/

section
variable {t : Fdt} {node : Int} {p v : List Byte} {prop : String}

theorem fdtCells_range (t : Fdt) (node : Int) (name : String) :
    fdtCells t node name = -FDT_ERR_NOTFOUND ∨ fdtCells t node name = -FDT_ERR_BADNCELLS ∨
      0 ≤ fdtCells t node name ∧ fdtCells t node name ≤ 4 := by
  unfold fdtCells
  split
  · exact .inl rfl
  · dsimp only
    split
    · exact .inr (.inl rfl)
    · rename_i hle
      refine .inr (.inr ⟨Int.natCast_nonneg _, ?_⟩)
      unfold FDT_MAX_NCELLS at hle
      omega
  · exact .inr (.inl rfl)

/-- what a count of cells can be -/
def CellCount (s : Int) : Prop := -14 ≤ s ∧ s ≤ 4

theorem fdtAddressCells_count (t : Fdt) (node : Int) : CellCount (fdtAddressCells t node) := by
  have h := fdtCells_range t node "#address-cells"
  unfold fdtAddressCells CellCount FDT_ERR_BADNCELLS FDT_ERR_NOTFOUND at *
  dsimp only
  split_ifs <;> lia

theorem fdtSizeCells_count (t : Fdt) (node : Int) : CellCount (fdtSizeCells t node) := by
  have h := fdtCells_range t node "#size-cells"
  unfold fdtSizeCells CellCount FDT_ERR_BADNCELLS FDT_ERR_NOTFOUND at *
  dsimp only
  split_ifs <;> lia

theorem fdt32ToCpu_cases (p : List Byte) : (4 ≤ p.length ∧ ∃ w, fdt32ToCpu p = pure w ∧ w.toInt = intOf (some p)) ∨
      p.length < 4 ∧ fdt32ToCpu p = fault .read := by
  match p with
  | [] => exact .inr ⟨by decide, rfl⟩
  | [_] => exact .inr ⟨by simp, rfl⟩
  | [_, _] => exact .inr ⟨by simp, rfl⟩
  | [_, _, _] => exact .inr ⟨by simp, rfl⟩
  | b0 :: b1 :: b2 :: b3 :: _ => exact .inl ⟨by simp, word b0 b1 b2 b3, rfl, rfl⟩

theorem fdt32ToCpu_walks (p : List Byte) : Walks (fdt32ToCpu p) [⟨4 ≤ p.length, True⟩] := by
  rcases fdt32ToCpu_cases p with ⟨h, w, e, -⟩ | ⟨h, e⟩
  · rw [e]
    exact walks_fits (iff_of_true ⟨_, rfl⟩ h) fun _ => ⟨w, rfl⟩
  · rw [e]
    exact walks_fits (iff_of_false not_noFault_fault (Nat.not_le.mpr h)) fun h' => absurd h' (Nat.not_le.mpr h)

/-- a number is read that is there, whatever is behind it -/
theorem fdtGetIntValue_walks (t : Fdt) (node : Int) (prop : String) :
    Walks (fdtGetIntValue t node prop) [intFits (t.getprop node prop)] ∧
      ∀ r, Returns (fdtGetIntValue t node prop) r → r = (t.getprop node prop).map fun v => intOf (some v) := by
  unfold fdtGetIntValue intFits
  cases h : t.getprop node prop with
  | none =>
    refine ⟨walks_fits (iff_of_true ⟨_, rfl⟩ nofun) fun _ => ⟨_, rfl⟩, fun r hr => ?_⟩
    exact (returns_pure.mp hr).symm
  | some v =>
    dsimp only
    refine ⟨?_, fun r hr => ?_⟩
    · refine ((fdt32ToCpu_walks v).map _).congr ?_ ?_
      · simp [Safe]
      · simp [passed_cons]
    · obtain ⟨w, hw, hr⟩ := returns_bind.mp hr
      rw [← returns_pure.mp hr]
      rcases fdt32ToCpu_cases v with ⟨-, w', e, hi⟩ | ⟨-, e⟩
      · rw [e] at hw
        rw [← returns_pure.mp hw]
        exact congrArg some hi
      · rw [e] at hw
        exact absurd hw.noFault not_noFault_fault

/-- **A number that is needed** -/
theorem getInt_walks {α : Type} (t : Fdt) (node : Int) (prop : String) (e : Int) {f : Int → Cfg α} {l : List Station}
    (hf : Walks (f (intOf (t.getprop node prop))) l) :
    Walks (fdtGetIntValue t node prop >>= fun r => orReturn r e >>= f)
      (intFits (t.getprop node prop) :: there (t.getprop node prop) :: l) := by
  obtain ⟨h1, h2⟩ := fdtGetIntValue_walks t node prop
  refine h1.cons fun r hr => ?_
  have hsome : r.isSome = (t.getprop node prop).isSome := by rw [h2 r hr, Option.isSome_map]
  unfold there
  rw [← hsome]
  refine (walks_orReturn r e).cons fun val hval => ?_
  have hval := returns_orReturn.mp hval
  rw [h2 r hr] at hval
  obtain ⟨v, hv, rfl⟩ := Option.map_eq_some_iff.mp hval
  rw [hv] at hf
  exact hf

/-- **The loop of `fdt_read_number`** -/
theorem readLoop_walks :
    ∀ (n : Nat) (r : BitVec 64) (p : List Byte), Walks (readLoop n r p) [⟨4 * n ≤ p.length, True⟩] := by
  intro n
  induction n with
  | zero => exact fun r p => walks_fits (iff_of_true ⟨_, rfl⟩ (Nat.zero_le _)) fun _ => ⟨r, rfl⟩
  | succ n ih =>
    intro r p
    have h := (fdt32ToCpu_walks p).cons fun w _ => ih (r <<< 32 ||| w.setWidth 64) (p.drop 4)
    refine h.merge ?_
    rw [List.length_drop]
    omega

/-- the pointer is behind `f` cells of the value -/
def At (v : List Byte) (f : Int) (p : List Byte) : Prop := 0 ≤ f ∧ 4 * f ≤ v.length ∧ p = v.drop (4 * f.toNat)

theorem At.start (v : List Byte) : At v 0 v := ⟨Int.le_refl 0, Int.natCast_nonneg _, rfl⟩

/-- **`fdt_next_cell`**: a count below 0 reads behind every value. -/
theorem fdtNextCell_walks {f s : Int} (hs : CellCount s) (hv : v.length < 2 ^ 31) (hp : At v f p) :
    Walks (fdtNextCell s p) [cellsFit (some v) f s] ∧ ∀ r, Returns (fdtNextCell s p) r → At v (f + s) r.2 := by
  obtain ⟨hf, hle, rfl⟩ := hp
  obtain ⟨hlo, hhi⟩ := hs
  have hn : (v.drop (4 * f.toNat)).length = v.length - 4 * f.toNat := List.length_drop
  have hcells : 4 * (BitVec.ofInt 32 s).toNat ≤ (v.drop (4 * f.toNat)).length ↔ 0 ≤ s ∧ 4 * (f + s) ≤ v.length := by
    rw [hn, BitVec.toNat_ofInt]
    omega
  have hloop := readLoop_walks (BitVec.ofInt 32 s).toNat 0 (v.drop (4 * f.toNat))
  refine ⟨?_, fun r hr => ?_⟩
  · refine (hloop.map _).congr ?_ ?_
    · simp only [Safe, cellsFit, Option.mem_some_iff, forall_eq', hcells]
    · simp only [passed_cons, cellsFit, Option.mem_some_iff, forall_eq', hcells]
  · obtain ⟨x, hx, hr⟩ := returns_bind.mp hr
    rw [← returns_pure.mp hr]
    obtain ⟨h0, h1⟩ := hcells.mp ((hloop.passed.mp ⟨x, hx⟩) _ (List.mem_singleton_self _)).1
    refine ⟨by omega, h1, ?_⟩
    rw [List.drop_drop, show 4 * f.toNat + 4 * s.toNat = 4 * (f + s).toNat by omega]

/-! ## the stores -/

/-- a string fits, and what is copied of it stays in the array -/
theorem strncpyTo_walks (dst : CharBuf) (src : List Byte) : Walks (strncpyTo dst src) [strFits (some src)] := by
  have hiff : (∀ b ∈ some src, Terminated b) ↔ (strncpy src (HV_BUFFER_MIN_LEN - 1)).isSome = true := by
    rw [strncpy_isSome]
    exact ⟨fun h => h src rfl, fun h b hb => Option.some.inj hb ▸ h⟩
  unfold strncpyTo strFits
  rw [hiff]
  cases h : strncpy src (HV_BUFFER_MIN_LEN - 1) with
  | none => exact walks_fits (iff_of_false not_noFault_fault nofun) nofun
  | some bytes =>
    have hle : bytes.length ≤ HV_BUFFER_MIN_LEN := strncpy_length h
    dsimp only
    unfold storeBytes
    rw [dif_pos hle]
    exact walks_fits (iff_of_true ⟨_, rfl⟩ rfl) fun _ => ⟨_, rfl⟩

theorem strncpyIf_walks (dst : CharBuf) (src : Option (List Byte)) : Walks (strncpyIf dst src) [strFits src] := by
  cases src with
  | none => exact walks_fits (iff_of_true ⟨_, rfl⟩ nofun) fun _ => ⟨_, rfl⟩
  | some src => exact strncpyTo_walks dst src

/-- **A string that is needed** -/
theorem getStr_walks {α : Type} (dst : CharBuf) (v : Option (List Byte)) (e : Int) {f : CharBuf → Cfg α}
    {l : List Station} (hf : ∀ b, Walks (f b) l) :
    Walks (orReturn v e >>= fun src => strncpyTo dst src >>= f) (there v :: strFits v :: l) := by
  refine (walks_orReturn v e).cons fun src hsrc => ?_
  rw [returns_orReturn.mp hsrc]
  exact (strncpyTo_walks dst src).cons fun b _ => hf b

/-- **The loop that fills `vcpu_affinity`** -/
theorem affinityLoop_walks (hv : v.length < 2 ^ 31) :
    ∀ {n i : Nat} {p : List Byte} {arr : List Int}, At v i p → i + n ≤ arr.length →
      Walks (affinityLoop n i p arr) [⟨4 * ((i : Int) + n) ≤ v.length, True⟩] := by
  intro n
  induction n with
  | zero =>
    intro i p arr hp _
    refine walks_fits (iff_of_true ⟨_, rfl⟩ ?_) fun _ => ⟨arr, rfl⟩
    have := hp.2.1
    lia
  | succ n ih =>
    intro i p arr hp hlen
    obtain ⟨h1, h2⟩ := fdtNextCell_walks (s := 1) ⟨by decide, by decide⟩ hv hp
    have h := h1.cons fun r hr => show Walks (storeInt arr i (r.1.setWidth 32).toInt >>= fun arr =>
        affinityLoop n (i + 1) r.2 arr) [⟨4 * (((i + 1 : Nat) : Int) + n) ≤ v.length, True⟩] by
      unfold storeInt
      rw [if_pos (by lia), pure_bind]
      refine ih (h2 r hr) ?_
      rw [List.length_set]
      lia
    refine h.merge ?_
    simp only [Option.mem_some_iff, forall_eq']
    lia

/-! ## the parsers -/

theorem intOf_lt (v : Option (List Byte)) : intOf v < 2 ^ 31 := by
  unfold intOf
  split
  · exact BitVec.toInt_lt
  · decide

/-- the array has an element for each number that is counted -/
theorem intsSize_div {n : Int} (h : n < 2 ^ 31) : n.toNat ≤ intsSize n / 4 := by
  unfold intsSize
  rw [BitVec.toNat_ofInt]
  omega

/-- **`parse_vcpu_cfg`** -/
theorem parseVcpuCfg_walks (t : Fdt) (malloc : Nat → Bool) (info : VmInfo) (node : Int) :
    Walks (parseVcpuCfg t malloc info node) (vcpuStations t malloc node) := by
  unfold parseVcpuCfg vcpuStations
  refine getInt_walks t node "cpu_num" (-1) (getInt_walks t node "mode" (-1) ?_)
  have hnum := intOf_lt (t.getprop node "cpu_num")
  generalize intOf (t.getprop node "cpu_num") = num at hnum
  refine (walks_returnIf_iff (Bool.not_eq_false _).to_iff _).cons fun _ _ => ?_
  refine (walks_orReturn _ _).cons fun ptr hptr => ?_
  have hptr := returns_orReturn.mp hptr
  rw [hptr]
  simp only [Option.mem_some_iff, forall_eq']
  refine (walks_returnIf_iff not_not _).cons fun _ _ => ?_
  have harr : 0 + num.toNat ≤ (List.replicate (intsSize num / 4) (0 : Int)).length := by
    rw [List.length_replicate, Nat.zero_add]
    exact intsSize_div hnum
  have hloop := affinityLoop_walks (t.len _ _ _ hptr) (At.start ptr) harr
  have hiff : 4 * (((0 : Nat) : Int) + num.toNat) ≤ ptr.length ↔ 4 * num ≤ ptr.length := by omega
  rw [hiff] at hloop
  exact hloop.map _

/-- **`parse_vm_cfg`** -/
theorem parseVmCfg_walks (t : Fdt) (malloc : Nat → Bool) {a c : Int} (ha : CellCount a) (hc : CellCount c) (i : Nat)
    (info : VmInfo) : Walks (parseVmCfg t malloc a c i info) (vmStations t malloc a c i) := by
  unfold parseVmCfg vmStations fdtGetStr
  dsimp only
  generalize t.pathOffset (vmPath i) = node
  refine (walks_returnIf_iff Int.not_lt _).cons fun _ _ => ?_
  refine getStr_walks _ _ _ fun image => ?_
  refine (strncpyIf_walks _ _).cons fun fdt _ => ?_
  refine getStr_walks _ _ _ fun name => ?_
  refine getInt_walks t node "os_typs" (-1) (getInt_walks t node "priority" (-1) ?_)
  refine (walks_returnIf_iff Int.not_lt _).cons fun _ _ => ?_
  refine getInt_walks t node "timeslice" (-1) (getInt_walks t node "image_type" (-1) ?_)
  refine (fdtGetIntValue_walks t node "auto_boot").1.cons fun autoBoot _ => ?_
  refine (walks_orReturn _ _).cons fun ptr hptr => ?_
  have hptr := returns_orReturn.mp hptr
  have hlen := t.len _ _ _ hptr
  rw [hptr]
  have hsize : ¬ (ptr.length : Int) < (BitVec.ofInt 32 ((a + c) * 4)).toInt ↔
      ∀ v ∈ some ptr, 4 * (a + c) ≤ v.length := by
    obtain ⟨ha1, ha2⟩ := ha
    obtain ⟨hc1, hc2⟩ := hc
    simp only [Option.mem_some_iff, forall_eq']
    rw [BitVec.toInt_ofInt, Int.bmod_eq_of_le (by lia) (by lia)]
    lia
  refine (walks_returnIf_iff hsize _).cons fun _ _ => ?_
  obtain ⟨h1, h2⟩ := fdtNextCell_walks ha hlen (At.start ptr)
  refine h1.cons fun ipa hipa => ?_
  have hat := h2 ipa hipa
  rw [Int.zero_add] at hat
  refine (fdtNextCell_walks hc hlen hat).1.cons fun ram _ => ?_
  refine (walks_returnIf_iff Int.not_lt _).cons fun _ _ => ?_
  exact ((parseVcpuCfg_walks t malloc _ _).withCode (-1)).map _

theorem nextRange_walks {a c f : Int} {p : List Byte} (ha : CellCount a) (hc : CellCount c) (hv : v.length < 2 ^ 31)
    (hp : At v f p) : Walks (nextRange a c p) [cellsFit (some v) f a, cellsFit (some v) (f + a) c] ∧
      ∀ r, Returns (nextRange a c p) r → At v (f + a + c) r.2 := by
  obtain ⟨h1, h2⟩ := fdtNextCell_walks ha hv hp
  refine ⟨h1.cons fun base hbase => (fdtNextCell_walks hc hv (h2 base hbase)).1.map _, fun r hr => ?_⟩
  obtain ⟨base, hbase, hr⟩ := returns_bind.mp hr
  obtain ⟨len, hlen, hr⟩ := returns_bind.mp hr
  rw [← returns_pure.mp hr]
  exact (fdtNextCell_walks hc hv (h2 base hbase)).2 len hlen

/-- **`hv_vm_irq_cfg_get`** -/
theorem hvVmIrqCfgGet_walks (t : Fdt) (cfgOffset : Int) (cfg : VgicCfg) :
    Walks (hvVmIrqCfgGet t cfgOffset cfg) (irqStations t cfgOffset) := by
  unfold hvVmIrqCfgGet irqStations
  dsimp only
  generalize t.subnodeOffset cfgOffset "intc" = node
  have ha := fdtAddressCells_count t node
  have hc := fdtSizeCells_count t node
  generalize fdtAddressCells t node = a at ha
  generalize fdtSizeCells t node = c at hc
  refine (walks_returnIf_iff Int.not_lt _).cons fun _ _ => getInt_walks t node "#redistributor-regions" _ ?_
  generalize intOf (t.getprop node "#redistributor-regions") = num
  refine (walks_orReturn _ _).cons fun ptr hptr => ?_
  have hptr := returns_orReturn.mp hptr
  have hlen := t.len _ _ _ hptr
  rw [hptr]
  obtain ⟨h1, h2⟩ := nextRange_walks ha hc hlen (At.start ptr)
  rw [Int.zero_add] at h1 h2
  refine h1.bind fun d hd => ?_
  obtain ⟨h3, h4⟩ := nextRange_walks ha hc hlen (h2 d hd)
  refine h3.bind fun r0 hr0 => ?_
  obtain ⟨h5, -⟩ := nextRange_walks ha hc hlen (h4 r0 hr0)
  unfold nextRangeIf
  split
  · exact h5.map _
  · exact Walks.pure _

theorem vmLoop_walks (t : Fdt) (env : Env) {a c : Int} (ha : CellCount a) (hc : CellCount c) :
    ∀ n i, Walks (vmLoop t env a c n i) (loopStations t env a c n i) := by
  intro n
  induction n with
  | zero => exact fun _ => Walks.pure _
  | succ n ih =>
    intro i
    unfold vmLoop loopStations
    refine (walks_returnIf_iff (Bool.not_eq_false _).to_iff _).cons fun _ _ => ?_
    refine (parseVmCfg_walks t (env.malloc i) ha hc i .zero).bind fun _ _ => ?_
    exact (walks_returnIf_iff (Bool.not_eq_false _).to_iff _).cons fun _ _ => ih (i + 1)

theorem lkhvParseVmcfg_walks (t : Fdt) (env : Env) : Walks (lkhvParseVmcfg t env) (cfgStations t env) := by
  unfold lkhvParseVmcfg cfgStations
  dsimp only
  generalize t.pathOffset "/" = root
  refine (walks_returnIf_iff Int.not_lt _).cons fun _ _ => getInt_walks t root "num-vms" (-2) ?_
  exact (vmLoop_walks t env (fdtAddressCells_count t root) (fdtSizeCells_count t root) _ 0).anyway.map _

/-! ## the claim, and when it holds -/

/-- as far as the parser comes, what it reads is there; where it comes to its end, the lengths are those needed -/
def Fits (l : List Station) (needs : Needs) : Prop := Safe l ∧ (Passed l → Exact needs)

theorem bounded_iff {α : Type} {x : Cfg α} {l : List Station} (h : Walks x l) (needs : Needs) :
    Bounded x needs ↔ Fits l needs := by
  unfold Bounded Fits
  rw [h.safe]
  refine and_congr_right fun _ => ⟨fun hall hp => ?_, fun hall a ha => hall (h.passed.mp ⟨a, ha⟩)⟩
  obtain ⟨a, ha⟩ := h.passed.mpr hp
  exact hall a ha

/-- **The parsers are bounded** if and only if the properties that they come to are as long as what is read of them,
and not longer where all of them are accepted; the stores stay in the arrays. -/
theorem vm_config_bounded (t : Fdt) (env : Env) (malloc : Nat → Bool) (root node cfgOffset : Int) (i : Nat)
    (info : VmInfo) (cfg : VgicCfg) :
    (Bounded (parseVmCfg t malloc (fdtAddressCells t root) (fdtSizeCells t root) i info)
        (vmNeeds t (fdtAddressCells t root) (fdtSizeCells t root) i) ↔
      Fits (vmStations t malloc (fdtAddressCells t root) (fdtSizeCells t root) i)
        (vmNeeds t (fdtAddressCells t root) (fdtSizeCells t root) i)) ∧
    (Bounded (parseVcpuCfg t malloc info node) (vcpuNeeds t node) ↔
      Fits (vcpuStations t malloc node) (vcpuNeeds t node)) ∧
    (Bounded (hvVmIrqCfgGet t cfgOffset cfg) (irqNeeds t cfgOffset) ↔
      Fits (irqStations t cfgOffset) (irqNeeds t cfgOffset)) ∧
    (NoFault (lkhvParseVmcfg t env) ↔ Safe (cfgStations t env)) :=
  ⟨bounded_iff (parseVmCfg_walks t malloc (fdtAddressCells_count t root) (fdtSizeCells_count t root) i info) _,
    bounded_iff (parseVcpuCfg_walks t malloc info node) _, bounded_iff (hvVmIrqCfgGet_walks t cfgOffset cfg) _,
    (lkhvParseVmcfg_walks t env).safe⟩

end

/-! ## two regions of three -/

/-- an `intc` that says it has two redistributor regions, and registers for the distributor and one of them -/
def oneRegion : Fdt where
  getprop _ prop :=
    if prop = "#redistributor-regions" then some [0, 0, 0, 2]
    else if prop = "reg" then some (List.replicate 24 0)
    else none
  pathOffset _ := 0
  subnodeOffset _ _ := 0
  len _ prop v h := by
    split_ifs at h
    all_goals
      cases h
      decide

/-- **The registers of the second region** are read behind the value. -/
theorem vm_config_unbounded : ¬ ∀ (t : Fdt) (malloc : Nat → Bool) (root node cfgOffset : Int) (i : Nat)
    (info : VmInfo) (cfg : VgicCfg),
    Bounded (parseVmCfg t malloc (fdtAddressCells t root) (fdtSizeCells t root) i info)
      (vmNeeds t (fdtAddressCells t root) (fdtSizeCells t root) i) ∧
    Bounded (parseVcpuCfg t malloc info node) (vcpuNeeds t node) ∧
    Bounded (hvVmIrqCfgGet t cfgOffset cfg) (irqNeeds t cfgOffset) := by
  intro hall
  obtain ⟨r, hr⟩ := (hall oneRegion (fun _ => true) 0 0 0 0 .zero ⟨⟨0, 0⟩, ⟨0, 0⟩, ⟨0, 0⟩, 0⟩).2.2.1
  have hread : (hvVmIrqCfgGet oneRegion 0 ⟨⟨0, 0⟩, ⟨0, 0⟩, ⟨0, 0⟩, 0⟩).run = .error .read := by rfl
  rw [hread] at hr
  cases hr

end VmConfig
end LkHv
