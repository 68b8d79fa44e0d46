import LkHv.Lib.Checked
import LkHv.Libc.Str
import LkHv.Kernel.Err

/-!
# The configuration of the virtual machines (`hv/vm_config.c`, `hv_arch_cfg.c`)

A pointer into a property is the list of the bytes from it to the end of the value; a read behind that is a fault, and
so is a store that leaves the array.

* `Fdt`                what libfdt says about a blob;
* `fdtReadNumber`, `fdtNextCell`, `fdtGetIntValue`   the reads;
* `parseVcpuCfg`, `parseVmCfg`, `lkhvParseVmcfg`, `hvVmIrqCfgGet`   the source's.
-/

namespace LkHv
namespace VmConfig
open Libc Checked

inductive Fault
  /-- behind the value of the property -/
  | read
  /-- outside of the array -/
  | write
  deriving DecidableEq

/-- codes are what the functions return on an error -/
abbrev Cfg (α : Type) := Checked Fault Int α

/-- a device tree blob, through `fdt_getprop`, `fdt_path_offset` and `fdt_subnode_offset` -/
structure Fdt where
  getprop : Int → String → Option (List Byte)
  pathOffset : String → Int
  subnodeOffset : Int → String → Int
  /-- the length of a value is an `int` -/
  len : ∀ node prop v, getprop node prop = some v → v.length < 2 ^ 31

def FDT_ERR_NOTFOUND : Int := 1
def FDT_ERR_BADNCELLS : Int := 14
def FDT_MAX_NCELLS : Nat := 4

/-- a big-endian word -/
def word (b0 b1 b2 b3 : Byte) : BitVec 32 := b0 ++ b1 ++ b2 ++ b3

/-- `fdt_cells` -/
def fdtCells (t : Fdt) (node : Int) (name : String) : Int :=
  match t.getprop node name with
  | none => -FDT_ERR_NOTFOUND
  | some [b0, b1, b2, b3] =>
    let val := (word b0 b1 b2 b3).toNat
    if val > FDT_MAX_NCELLS then -FDT_ERR_BADNCELLS else val
  | some _ => -FDT_ERR_BADNCELLS

def fdtAddressCells (t : Fdt) (node : Int) : Int :=
  let val := fdtCells t node "#address-cells"
  if val = 0 then -FDT_ERR_BADNCELLS else if val = -FDT_ERR_NOTFOUND then 2 else val

def fdtSizeCells (t : Fdt) (node : Int) : Int :=
  let val := fdtCells t node "#size-cells"
  if val = -FDT_ERR_NOTFOUND then 1 else val

/-! ## reads -/

/-- `fdt32_to_cpu` of what a pointer leads to -/
def fdt32ToCpu : List Byte → Cfg (BitVec 32)
  | b0 :: b1 :: b2 :: b3 :: _ => pure (word b0 b1 b2 b3)
  | _ => fault .read

/-- the loop of `fdt_read_number` -/
def readLoop : Nat → BitVec 64 → List Byte → Cfg (BitVec 64)
  | 0, r, _ => pure r
  | n + 1, r, cell => do
    let w ← fdt32ToCpu cell
    readLoop n (r <<< 32 ||| w.setWidth 64) (cell.drop 4)

/-- `fdt_read_number`; a size below 0 counts down through all of the `int` -/
def fdtReadNumber (cell : List Byte) (size : Int) : Cfg (BitVec 64) := readLoop (BitVec.ofInt 32 size).toNat 0 cell

/-- `fdt_next_cell`, with the pointer behind it -/
def fdtNextCell (s : Int) (p : List Byte) : Cfg (BitVec 64 × List Byte) := do
  let r ← fdtReadNumber p s
  return (r, p.drop (4 * s.toNat))

/-- `fdt_get_int_value`; it does not look at the length -/
def fdtGetIntValue (t : Fdt) (node : Int) (prop : String) : Cfg (Option Int) :=
  match t.getprop node prop with
  | none => pure none
  | some v => do
    let w ← fdt32ToCpu v
    return some w.toInt

/-- `fdt_get_str` -/
def fdtGetStr (t : Fdt) (node : Int) (prop : String) : Option (List Byte) := t.getprop node prop

/-! ## what is filled -/

def HV_BUFFER_MIN_LEN : Nat := 32
def HIGHEST_PRIORITY : Int := 31

/-- a `char` array of `struct vm_info` -/
structure CharBuf where
  bytes : List Byte
  size : bytes.length = HV_BUFFER_MIN_LEN

/-- `struct vm_info` -/
structure VmInfo where
  name : CharBuf
  image : CharBuf
  fdt : CharBuf
  osType : Int
  imageType : Int
  priority : Int
  timeslice : Int
  autoBoot : Int
  ipaStart : BitVec 64
  ramSize : BitVec 64
  vcpuNum : Int
  vcpuMode : Int
  /-- the array that `vcpu_affinity` leads to -/
  vcpuAffinity : List Int
  cfgOffset : Int

def CharBuf.zero : CharBuf := ⟨List.replicate HV_BUFFER_MIN_LEN 0, List.length_replicate⟩

/-- `lkhv_alloc_vm` clears it -/
def VmInfo.zero : VmInfo :=
  { name := .zero, image := .zero, fdt := .zero, osType := 0, imageType := 0, priority := 0, timeslice := 0,
    autoBoot := 0, ipaStart := 0, ramSize := 0, vcpuNum := 0, vcpuMode := 0, vcpuAffinity := [], cfgOffset := 0 }

theorem CharBuf.size_store (dst : CharBuf) {bytes : List Byte} (h : bytes.length ≤ HV_BUFFER_MIN_LEN) :
    (bytes ++ dst.bytes.drop bytes.length).length = HV_BUFFER_MIN_LEN := by
  rw [List.length_append, List.length_drop, dst.size]
  omega

def storeBytes (dst : CharBuf) (bytes : List Byte) : Cfg CharBuf :=
  if h : bytes.length ≤ HV_BUFFER_MIN_LEN then pure ⟨bytes ++ dst.bytes.drop bytes.length, dst.size_store h⟩
  else fault .write

/-- `strncpy(dst, src, sizeof(dst) - 1)` -/
def strncpyTo (dst : CharBuf) (src : List Byte) : Cfg CharBuf :=
  match strncpy src (HV_BUFFER_MIN_LEN - 1) with
  | none => fault .read
  | some bytes => storeBytes dst bytes

def strncpyIf (dst : CharBuf) : Option (List Byte) → Cfg CharBuf
  | none => pure dst
  | some src => strncpyTo dst src

def storeInt (arr : List Int) (i : Nat) (val : Int) : Cfg (List Int) :=
  if i < arr.length then pure (arr.set i val) else fault .write

/-! ## the parsers -/

/-- `sizeof(int) * n`, a `size_t` -/
def intsSize (n : Int) : Nat := (BitVec.ofInt 64 (4 * n)).toNat

/-- the loop that fills `vcpu_affinity` -/
def affinityLoop : Nat → Nat → List Byte → List Int → Cfg (List Int)
  | 0, _, _, affinity => pure affinity
  | n + 1, i, ptr, affinity => do
    let r ← fdtNextCell 1 ptr
    let affinity ← storeInt affinity i (r.1.setWidth 32).toInt
    affinityLoop n (i + 1) r.2 affinity

/-- `parse_vcpu_cfg`; `malloc` says whether there is memory -/
def parseVcpuCfg (t : Fdt) (malloc : Nat → Bool) (info : VmInfo) (offset : Int) : Cfg VmInfo := do
  let vcpuNum ← orReturn (← fdtGetIntValue t offset "cpu_num") (-1)
  let vcpuMode ← orReturn (← fdtGetIntValue t offset "mode") (-1)
  returnIf (malloc (intsSize vcpuNum) = false) ERR_NO_MEMORY
  let ptr ← orReturn (t.getprop offset "affinity") (-1)
  returnIf ((ptr.length : Int) ≠ toInt (intsSize vcpuNum)) (-1)
  -- the array is cleared before
  let vcpuAffinity ← affinityLoop vcpuNum.toNat 0 ptr (List.replicate (intsSize vcpuNum / 4) 0)
  return { info with vcpuNum, vcpuMode, vcpuAffinity }

/-- "/vm@%d" -/
def vmPath (i : Nat) : String := "/vm@" ++ toString (i + 1)

/-- `parse_vm_cfg`; what it has filled when it returns an error is thrown away -/
def parseVmCfg (t : Fdt) (malloc : Nat → Bool) (addressCell cellSize : Int) (i : Nat) (info : VmInfo) :
    Cfg VmInfo := do
  let offset := t.pathOffset (vmPath i)
  returnIf (offset < 0) (-1)
  let image ← orReturn (fdtGetStr t offset "image") (-1)
  let image ← strncpyTo info.image image
  let fdt ← strncpyIf info.fdt (fdtGetStr t offset "fdt")
  let name ← orReturn (fdtGetStr t offset "lable") (-1)
  let name ← strncpyTo info.name name
  let osType ← orReturn (← fdtGetIntValue t offset "os_typs") (-1)
  let priority ← orReturn (← fdtGetIntValue t offset "priority") (-1)
  returnIf (priority > HIGHEST_PRIORITY) ERR_INVALID_ARGS
  let timeslice ← orReturn (← fdtGetIntValue t offset "timeslice") (-1)
  let imageType ← orReturn (← fdtGetIntValue t offset "image_type") (-1)
  let autoBoot ← fdtGetIntValue t offset "auto_boot"
  let ptr ← orReturn (t.getprop offset "ram_reg") (-1)
  returnIf ((ptr.length : Int) < ((BitVec.ofInt 32 ((addressCell + cellSize) * 4)).toInt)) (-1)
  let ipaStart ← fdtNextCell addressCell ptr
  let ramSize ← fdtNextCell cellSize ipaStart.2
  returnIf (t.subnodeOffset offset "cpus" < 0) (-1)
  let info := { info with
    image, fdt, name, osType, priority, timeslice, imageType, autoBoot := autoBoot.getD 0, ipaStart := ipaStart.1,
    ramSize := ramSize.1 <<< 20 }
  let info ← withCode (parseVcpuCfg t malloc info (t.subnodeOffset offset "cpus")) (-1)
  return { info with cfgOffset := offset }

/-- what the others do for the VM `i`: there is memory for it and for an array, and `lkhv_init_vm` succeeds -/
structure Env where
  allocVm : Nat → Bool
  malloc : Nat → Nat → Bool
  initVm : Nat → Bool

/-- the loop of `lkhv_parse_vmcfg`; to leave it is its `break` -/
def vmLoop (t : Fdt) (env : Env) (addressCell cellSize : Int) : Nat → Nat → Cfg Unit
  | 0, _ => pure ()
  | n + 1, i => do
    returnIf (env.allocVm i = false) 0
    let _ ← parseVmCfg t (env.malloc i) addressCell cellSize i .zero
    returnIf (env.initVm i = false) 0
    vmLoop t env addressCell cellSize n (i + 1)

/-- `lkhv_parse_vmcfg`, once the blob is read -/
def lkhvParseVmcfg (t : Fdt) (env : Env) : Cfg Int := do
  let offset := t.pathOffset "/"
  returnIf (offset < 0) (-1)
  let vmNum ← orReturn (← fdtGetIntValue t offset "num-vms") (-2)
  anyway (vmLoop t env (fdtAddressCells t offset) (fdtSizeCells t offset) vmNum.toNat 0)
  return 0

/-- a base and a length of `struct vgic_cfg` -/
structure Range where
  base : BitVec 64
  len : BitVec 32

/-- `struct vgic_cfg` -/
structure VgicCfg where
  d : Range
  r0 : Range
  r1 : Range
  redistNum : Int

/-- two calls of `fdt_next_cell` -/
def nextRange (addressCell cellSize : Int) (ptr : List Byte) : Cfg (Range × List Byte) := do
  let base ← fdtNextCell addressCell ptr
  let len ← fdtNextCell cellSize base.2
  return (⟨base.1, len.1.setWidth 32⟩, len.2)

def nextRangeIf (c : Prop) [Decidable c] (addressCell cellSize : Int) (r : Range) (ptr : List Byte) :
    Cfg (Range × List Byte) :=
  if c then nextRange addressCell cellSize ptr else pure (r, ptr)

/-- `hv_vm_irq_cfg_get` -/
def hvVmIrqCfgGet (t : Fdt) (cfgOffset : Int) (cfg : VgicCfg) : Cfg VgicCfg := do
  let gicOffset := t.subnodeOffset cfgOffset "intc"
  returnIf (gicOffset < 0) ERR_NOT_FOUND
  let addressCell := fdtAddressCells t gicOffset
  let cellSize := fdtSizeCells t gicOffset
  let redistNum ← orReturn (← fdtGetIntValue t gicOffset "#redistributor-regions") ERR_NOT_FOUND
  let ptr ← orReturn (t.getprop gicOffset "reg") ERR_NOT_FOUND
  let d ← nextRange addressCell cellSize ptr
  let r0 ← nextRange addressCell cellSize d.2
  let r1 ← nextRangeIf (redistNum = 2) addressCell cellSize cfg.r1 r0.2
  return ⟨d.1, r0.1, r1.1, redistNum⟩

end VmConfig
end LkHv
