import LkHv.Kernel.Err
import LkHv.Kernel.Word
import LkHv.Lib.Machine
import LkHv.Sysparam.Record

/-!
# System parameters (`lib/sysparam/sysparam.c`)

What the heap and the device answer are arguments; a call is `none` where an assertion fails.

* `sysparamScan`, `sysparamReload`, `sysparamWrite`, `sysparamAdd`, `sysparamRemove`, `sysparamLock`   the source's;
* `Persistent`          what a call has to do: what is written is found again, an error of the device is reported,
                        locked parameters stay;
* `Careful`             the scans read their whole area and find what is in the list, and what is written is short and
                        is really written;
* `sysparams_persist`   every call of a careful run is persistent;
* `sysparams_persist_fails`   a write that fails is not reported.
-/

namespace LkHv.Sysparams

/-! ## the state -/

/-- a block device -/
structure SysDev where
  blockSize : Nat
  content : List UInt8

/-- `params`, and the devices -/
structure Params where
  list : List Sysparam
  dirty : Bool
  bdev : Option Nat
  offset : Nat
  len : Nat
  devs : Nat → SysDev

namespace Params

/-- `len` bytes of a device -/
def area (s : Params) (bdev offset len : Nat) : List UInt8 := ((s.devs bdev).content.drop offset).take len

/-- bytes of a device are replaced -/
def setArea (s : Params) (bdev offset : Nat) (buf : List UInt8) : Params :=
  let d := s.devs bdev
  { s with devs := Function.update s.devs bdev { d with
      content := d.content.take offset ++ (buf ++ d.content.drop (offset + buf.length)) } }

end Params

/-- what a scan is answered: memory for its buffer, whether all bytes are read, memory for the parameters; and what lies
in memory behind the buffer -/
structure ScanEnd where
  malloc : Bool
  io : Bool
  mem : List Bool
  beyond : List UInt8

/-- what a write is answered: memory for its buffer, whether all bytes are erased and whether they are written; and what
is left in the area if they are not -/
structure WriteEnd where
  calloc : Bool
  erase : Bool
  write : Bool
  left : Nat → UInt8

/-! ## the calls -/

/-- `sysparam_scan` -/
def sysparamScan (s : Params) (bdev offset len : Nat) (o : ScanEnd) : Option (Params × Int) :=
  if len = 0 ∨ (s.devs bdev).content.length < offset + len ∨ offset % (s.devs bdev).blockSize ≠ 0 then none
  else
    let s := { s with bdev := some bdev, offset := offset, len := len, dirty := false }
    if ¬ o.malloc then some (s, ERR_NO_MEMORY)
    else
      -- the count of bytes is kept in a `status_t`
      let err := if o.io then wrap32 len else ERR_IO
      if err < len then some (s, ERR_IO)
      else
        let r := scanLoop (s.area bdev offset len ++ o.beyond) (offset + len) len (len + 1) 0 o.mem
        some ({ s with list := s.list ++ r.1 }, if r.2 then err else ERR_NO_MEMORY)

/-- `sysparam_reload` -/
def sysparamReload (s : Params) (o : ScanEnd) : Option (Params × Int) :=
  match s.bdev with
  | none => some (s, ERR_INVALID_ARGS)
  | some bdev =>
    if s.len = 0 then some (s, ERR_INVALID_ARGS)
    else sysparamScan { s with list := [], dirty := false } bdev s.offset s.len o

/-- `sysparam_write` -/
def sysparamWrite (s : Params) (w : WriteEnd) : Params × Int :=
  match s.bdev with
  | none => (s, ERR_INVALID_ARGS)
  | some bdev =>
    if s.len = 0 then (s, ERR_INVALID_ARGS)
    else if ¬ s.dirty then (s, 0)
    else if totalLen s.list > s.len then (s, ERR_NO_MEMORY)
    else if ¬ w.calloc then (s, ERR_NO_MEMORY)
    else
      let left := (List.range s.len).map w.left
      if ¬ w.erase then (s.setArea bdev s.offset left, ERR_IO)
      else
        -- what `bio_write` returns is not looked at
        let s' := s.setArea bdev s.offset (if w.write then serialize s.list s.len else left)
        ({ s' with dirty := false }, 0)

/-- `sysparam_find` -/
def sysparamFind (s : Params) (name : CString) : Option Sysparam := s.list.find? fun p => p.name = name

/-- `sysparam_add` -/
def sysparamAdd (s : Params) (name : CString) (value : List UInt8) (mem : Bool) : Params × Int :=
  match sysparamFind s name with
  | some _ => (s, ERR_ALREADY_EXISTS)
  | none =>
    if ¬ mem then (s, ERR_NO_MEMORY)
    else ({ s with list := s.list ++ [⟨0, name, value⟩], dirty := true }, 0)

/-- `sysparam_remove` -/
def sysparamRemove (s : Params) (name : CString) : Params × Int :=
  match sysparamFind s name with
  | none => (s, ERR_NOT_FOUND)
  | some param =>
    if param.isLocked then (s, ERR_NOT_ALLOWED)
    else ({ s with list := s.list.eraseP fun p => p.name = name, dirty := true }, 0)

/-- the first parameter of a name is locked -/
def lockFirst (name : CString) : List Sysparam → List Sysparam
  | [] => []
  | p :: l => if p.name = name then { p with flags := p.flags ||| SYSPARAM_FLAG_LOCK } :: l else p :: lockFirst name l

/-- `sysparam_lock` -/
def sysparamLock (s : Params) (name : CString) : Params × Int :=
  match sysparamFind s name with
  | none => (s, ERR_NOT_FOUND)
  | some param =>
    if param.isLocked then (s, 0) else ({ s with list := lockFirst name s.list, dirty := true }, 0)

/-! ## the system -/

inductive SysOp where
  | scan (bdev offset len : Nat) (o : ScanEnd)
  | reload (o : ScanEnd)
  | write (w : WriteEnd)
  | add (name : CString) (value : List UInt8) (mem : Bool)
  | remove (name : CString)
  | lock (name : CString)

def sysCall (s : Params) : SysOp → Option (Params × Int)
  | .scan bdev offset len o => sysparamScan s bdev offset len o
  | .reload o => sysparamReload s o
  | .write w => some (sysparamWrite s w)
  | .add name value mem => some (sysparamAdd s name value mem)
  | .remove name => some (sysparamRemove s name)
  | .lock name => some (sysparamLock s name)

/-- before the first scan -/
def Params.init (devs : Nat → SysDev) : Params := ⟨[], false, none, 0, 0, devs⟩

def sysparams : Machine Params SysOp := .ofFun (fun s => ∃ devs, s = .init devs) fun s op => (sysCall s op).map (·.1)

/-- the scan reads its bytes and has memory for what it finds -/
def ScanEnd.Fine (o : ScanEnd) : Prop := o.malloc = true ∧ o.io = true ∧ ∀ x ∈ o.mem, x = true

/-- the write gets to the device -/
def Params.writes (s : Params) (w : WriteEnd) : Bool :=
  s.bdev.isSome && (s.len ≠ 0 && (s.dirty && (totalLen s.list ≤ s.len && w.calloc)))

/-- What a call has to do. -/
structure Persistent (s : Params) (op : SysOp) (s' : Params) (err : Int) : Prop where
  /-- what a write leaves is found again, by every reload that can read it -/
  found : ∀ w, op = .write w → err = 0 → ∀ o : ScanEnd, o.Fine →
    ∃ s'' n, sysparamReload s' o = some (s'', n) ∧ 0 ≤ n ∧ ∀ p, p ∈ s''.list ↔ p ∈ s.list
  /-- the errors of the device are reported -/
  reported : ∀ w, op = .write w → s.writes w = true → w.erase = false ∨ w.write = false → err < 0
  /-- locked parameters stay in the list, until it is loaded again -/
  locked : (∀ o, op ≠ .reload o) → ∀ p ∈ s.list, p.isLocked = true → p ∈ s'.list

/-! ## careful calls -/

/-- what is found in an area does not depend on what lies behind it -/
def Inside (b : List UInt8) (lim len : Nat) : Prop := ∀ beyond, found (b ++ beyond) lim len = found b lim len

/-- **The scans read their whole area and find what is in the list, and what is written is short and is written.** -/
def Careful (s : Params) : SysOp → Prop
  | .scan bdev offset len o => o.Fine ∧ len < 2 ^ 31 ∧ Inside (s.area bdev offset len) (offset + len) len ∧
      ∀ p ∈ s.list, p ∈ found (s.area bdev offset len) (offset + len) len
  | .reload o => o.Fine ∧ ∀ bdev, s.bdev = some bdev → Inside (s.area bdev s.offset s.len) (s.offset + s.len) s.len
  | .write w => s.writes w = true → w.erase = true → w.write = true ∧ ∀ p ∈ s.list, p.Short
  | .add _ _ _ => True
  | .remove _ => True
  | .lock _ => True

/-! ## the invariant -/

/-- the area of the parameters lies on its device, and unless the list is dirty it is what a scan finds there -/
structure SysInv (s : Params) : Prop where
  placed : ∀ bdev, s.bdev = some bdev → s.len ≠ 0 ∧ s.len < 2 ^ 31 ∧
    s.offset + s.len ≤ (s.devs bdev).content.length ∧ s.offset % (s.devs bdev).blockSize = 0
  clean : s.dirty = false → ∀ bdev, s.bdev = some bdev → ∀ beyond p,
    p ∈ found (s.area bdev s.offset s.len ++ beyond) (s.offset + s.len) s.len ↔ p ∈ s.list

section
variable {s s' : Params} {n : Int}

/-! ### devices -/

theorem area_setArea {bdev offset : Nat} {buf : List UInt8} (h : offset + buf.length ≤ (s.devs bdev).content.length) :
    (s.setArea bdev offset buf).area bdev offset buf.length = buf := by
  unfold Params.area Params.setArea
  dsimp only
  rw [Function.update_self, List.drop_append_of_le_length (by rw [List.length_take]; lia), List.drop_take,
    Nat.sub_self, List.take_zero, List.nil_append, List.take_left]

theorem setArea_length {bdev offset : Nat} {buf : List UInt8}
    (h : offset + buf.length ≤ (s.devs bdev).content.length) (d : Nat) :
    ((s.setArea bdev offset buf).devs d).content.length = (s.devs d).content.length ∧
      ((s.setArea bdev offset buf).devs d).blockSize = (s.devs d).blockSize := by
  unfold Params.setArea
  dsimp only
  by_cases e : d = bdev
  · subst e
    rw [Function.update_self]
    refine ⟨?_, rfl⟩
    rw [List.length_append, List.length_append, List.length_take, List.length_drop]
    lia
  · rw [Function.update_of_ne e]
    exact ⟨rfl, rfl⟩

theorem serialize_length {l : List Sysparam} {len : Nat} (h : totalLen l ≤ len) : (serialize l len).length = len := by
  rw [serialize_eq, List.length_append, zeros_length, records_length]
  omega

/-! ### scans -/

/-- a scan that reads its bytes and has memory -/
theorem scan_fine {bdev offset len : Nat} {o : ScanEnd} (ho : o.Fine) (hlen : len < 2 ^ 31) (h0 : len ≠ 0)
    (hsize : offset + len ≤ (s.devs bdev).content.length) (hblock : offset % (s.devs bdev).blockSize = 0) :
    sysparamScan s bdev offset len o = some ({ s with
      bdev := some bdev, offset := offset, len := len, dirty := false,
      list := s.list ++ found (s.area bdev offset len ++ o.beyond) (offset + len) len }, (len : Int)) := by
  obtain ⟨hmalloc, hio, hmem⟩ := ho
  have hwrap : wrap32 (len : Int) = len := wrap32_of_range (by lia) (by lia)
  unfold sysparamScan
  dsimp only
  rw [if_neg (by lia), if_neg (by rw [hmalloc]; decide), if_pos hio, hwrap, if_neg (lt_irrefl _),
    scanLoop_mem _ _ _ _ _ _ hmem]
  rfl

theorem scan_asserted {bdev offset len : Nat} {o : ScanEnd} (h : sysparamScan s bdev offset len o = some (s', n)) :
    len ≠ 0 ∧ offset + len ≤ (s.devs bdev).content.length ∧ offset % (s.devs bdev).blockSize = 0 := by
  unfold sysparamScan at h
  split at h
  · cases h
  · lia

theorem scan_list {bdev offset len : Nat} {o : ScanEnd} (h : sysparamScan s bdev offset len o = some (s', n)) :
    ∀ p ∈ s.list, p ∈ s'.list := by
  unfold sysparamScan at h
  split at h
  · cases h
  · dsimp only at h
    by_cases hm : ¬ o.malloc = true
    · rw [if_pos hm] at h
      obtain ⟨rfl, -⟩ := Prod.mk.inj (Option.some.inj h)
      exact fun p hp => hp
    · rw [if_neg hm] at h
      by_cases herr : (if o.io = true then wrap32 len else ERR_IO) < len
      · rw [if_pos herr] at h
        obtain ⟨rfl, -⟩ := Prod.mk.inj (Option.some.inj h)
        exact fun p hp => hp
      · rw [if_neg herr] at h
        obtain ⟨rfl, -⟩ := Prod.mk.inj (Option.some.inj h)
        intro p hp
        exact List.mem_append_left _ hp

/-- a careful scan leaves a list that is what is found in its area -/
theorem SysInv.scan {bdev offset len : Nat} {o : ScanEnd} (ho : o.Fine) (hlen : len < 2 ^ 31)
    (hin : Inside (s.area bdev offset len) (offset + len) len)
    (hlist : ∀ p ∈ s.list, p ∈ found (s.area bdev offset len) (offset + len) len)
    (h : sysparamScan s bdev offset len o = some (s', n)) : SysInv s' := by
  obtain ⟨h0, hsize, hblock⟩ := scan_asserted h
  rw [scan_fine ho hlen h0 hsize hblock] at h
  cases h
  constructor
  · rintro b ⟨⟩
    exact ⟨h0, hlen, hsize, hblock⟩
  · rintro - b ⟨⟩ beyond p
    show p ∈ found (s.area bdev offset len ++ beyond) (offset + len) len ↔
      p ∈ s.list ++ found (s.area bdev offset len ++ o.beyond) (offset + len) len
    rw [hin beyond, hin o.beyond, List.mem_append]
    exact ⟨.inr, fun hp => hp.elim (hlist p) id⟩

/-- a reload that reads its bytes and has memory finds the list of a clean state -/
theorem SysInv.reload (h : SysInv s) (hclean : s.dirty = false) {bdev : Nat} (hb : s.bdev = some bdev) {o : ScanEnd}
    (ho : o.Fine) : ∃ s'' n, sysparamReload s o = some (s'', n) ∧ 0 ≤ n ∧ ∀ p, p ∈ s''.list ↔ p ∈ s.list := by
  obtain ⟨h0, hlen, hsize, hblock⟩ := h.placed bdev hb
  have hscan := scan_fine (s := { s with list := [], dirty := false }) ho hlen h0 hsize hblock
  unfold sysparamReload
  split
  · rename_i hnone
    cases hnone.symm.trans hb
  · rename_i b hb'
    cases hb'.symm.trans hb
    rw [if_neg h0]
    exact ⟨_, _, hscan, by omega, fun p => h.clean hclean bdev hb o.beyond p⟩

/-! ### changes of the list -/

/-- a list that is changed is dirty -/
theorem SysInv.list (h : SysInv s) (l : List Sysparam) : SysInv { s with list := l, dirty := true } :=
  ⟨h.placed, fun hd => nomatch hd⟩

/-- another parameter than the first of a name stays when the first is removed or locked -/
theorem mem_eraseP_of_ne {name : CString} {param p : Sysparam} {l : List Sysparam}
    (hf : l.find? (fun p => p.name = name) = some param) (hp : p ∈ l) (hne : p ≠ param) :
    p ∈ l.eraseP (fun p => p.name = name) ∧ p ∈ lockFirst name l := by
  induction l with
  | nil => cases hp
  | cons q l ih =>
    by_cases hq : q.name = name
    · rw [List.find?_cons, decide_eq_true hq] at hf
      cases hf
      obtain rfl | hp := List.mem_cons.mp hp
      · exact absurd rfl hne
      · rw [List.eraseP_cons, decide_eq_true hq, cond_true, lockFirst, if_pos hq]
        exact ⟨hp, .tail _ hp⟩
    · rw [List.find?_cons, decide_eq_false hq] at hf
      rw [List.eraseP_cons, decide_eq_false hq, cond_false, lockFirst, if_neg hq]
      obtain rfl | hp := List.mem_cons.mp hp
      · exact ⟨.head _, .head _⟩
      · exact (ih hf hp).imp (.tail _) (.tail _)

/-! ### writes -/

/-- what a write does to the device and the list -/
inductive WriteCase (s : Params) (w : WriteEnd) : Params × Int → Prop
  | refused {err : Int} : s.writes w = false → err < 0 → WriteCase s w (s, err)
  | clean {bdev : Nat} : s.writes w = false → s.bdev = some bdev → s.dirty = false → WriteCase s w (s, 0)
  | erased {bdev : Nat} : s.writes w = true → s.bdev = some bdev → s.dirty = true → w.erase = false →
      WriteCase s w (s.setArea bdev s.offset ((List.range s.len).map w.left), ERR_IO)
  | written {bdev : Nat} : s.writes w = true → s.bdev = some bdev → w.erase = true → totalLen s.list ≤ s.len →
      WriteCase s w ({ s.setArea bdev s.offset
        (if w.write then serialize s.list s.len else (List.range s.len).map w.left) with dirty := false }, 0)

theorem writes_iff {w : WriteEnd} : s.writes w = true ↔
    s.bdev.isSome ∧ s.len ≠ 0 ∧ s.dirty = true ∧ totalLen s.list ≤ s.len ∧ w.calloc = true := by
  simp only [Params.writes, Bool.and_eq_true, decide_eq_true_eq]

theorem writes_refused {w : WriteEnd}
    (h : ¬ (s.bdev.isSome ∧ s.len ≠ 0 ∧ s.dirty = true ∧ totalLen s.list ≤ s.len ∧ w.calloc = true)) :
    s.writes w = false :=
  Bool.eq_false_iff.mpr fun hw => h (writes_iff.mp hw)

theorem writeCase (s : Params) (w : WriteEnd) : WriteCase s w (sysparamWrite s w) := by
  unfold sysparamWrite
  split
  · rename_i hb
    exact .refused (writes_refused fun h => by rw [hb] at h; cases h.1) (by decide)
  · rename_i bdev hb
    by_cases h0 : s.len = 0
    · rw [if_pos h0]
      exact .refused (writes_refused fun h => h.2.1 h0) (by decide)
    · rw [if_neg h0]
      by_cases hd : s.dirty = true
      · rw [if_neg (not_not.mpr hd)]
        by_cases ht : totalLen s.list > s.len
        · rw [if_pos ht]
          exact .refused (writes_refused fun h => absurd h.2.2.2.1 (Nat.not_le.mpr ht)) (by decide)
        · rw [if_neg ht]
          by_cases hc : w.calloc = true
          · have hw : s.writes w = true := writes_iff.mpr ⟨hb ▸ rfl, h0, hd, Nat.not_lt.mp ht, hc⟩
            rw [if_neg (not_not.mpr hc)]
            dsimp only
            by_cases he : w.erase = true
            · rw [if_neg (not_not.mpr he)]
              exact .written hw hb he (Nat.not_lt.mp ht)
            · rw [if_pos he]
              exact .erased hw hb hd (Bool.eq_false_iff.mpr he)
          · rw [if_pos hc]
            exact .refused (writes_refused fun h => hc h.2.2.2.2) (by decide)
      · rw [if_pos hd]
        exact .clean (writes_refused fun h => hd h.2.2.1) hb (Bool.eq_false_iff.mpr hd)

/-- the area of the parameters may be written to -/
theorem SysInv.setArea (h : SysInv s) {bdev : Nat} (hb : s.bdev = some bdev) {buf : List UInt8}
    (hbuf : buf.length = s.len) (dirty : Bool)
    (hclean : dirty = false → ∀ beyond p, p ∈ found (buf ++ beyond) (s.offset + s.len) s.len ↔ p ∈ s.list) :
    SysInv { s.setArea bdev s.offset buf with dirty := dirty } := by
  obtain ⟨h0, hlen, hsize, hblock⟩ := h.placed bdev hb
  have hfit : s.offset + buf.length ≤ (s.devs bdev).content.length := by omega
  constructor
  · intro b hb'
    cases hb.symm.trans hb'
    obtain ⟨hcontent, hbs⟩ := setArea_length hfit bdev
    refine ⟨h0, hlen, ?_, ?_⟩
    · show s.offset + s.len ≤ ((s.setArea bdev s.offset buf).devs bdev).content.length
      rw [hcontent]
      exact hsize
    · show s.offset % ((s.setArea bdev s.offset buf).devs bdev).blockSize = 0
      rw [hbs]
      exact hblock
  · intro hd b hb' beyond p
    cases hb.symm.trans hb'
    have harea : (s.setArea bdev s.offset buf).area bdev s.offset s.len = buf := by
      rw [← hbuf]
      exact area_setArea hfit
    show p ∈ found ((s.setArea bdev s.offset buf).area bdev s.offset s.len ++ beyond) (s.offset + s.len) s.len ↔ _
    rw [harea]
    exact hclean hd beyond p

theorem SysInv.write (h : SysInv s) {w : WriteEnd} (hg : Careful s (.write w)) : SysInv (sysparamWrite s w).1 := by
  have hcase := writeCase s w
  generalize sysparamWrite s w = r at hcase ⊢
  cases hcase with
  | refused _ _ => exact h
  | clean _ _ _ => exact h
  | erased hw hb hd he =>
    have hleft : ((List.range s.len).map w.left).length = s.len := by simp
    have hset := h.setArea hb hleft true nofun
    rw [← hd] at hset
    exact hset
  | written hw hb he ht =>
    obtain ⟨hwrite, hshort⟩ := hg hw he
    rw [if_pos hwrite]
    refine h.setArea hb (serialize_length ht) false fun _ beyond p => ?_
    rw [scan_serialize hshort ht (Nat.le_add_left _ _)]

theorem SysInv.add (h : SysInv s) (name : CString) (value : List UInt8) (mem : Bool) :
    SysInv (sysparamAdd s name value mem).1 := by
  unfold sysparamAdd
  split
  · exact h
  · split
    · exact h
    · exact h.list _

theorem SysInv.remove (h : SysInv s) (name : CString) : SysInv (sysparamRemove s name).1 := by
  unfold sysparamRemove
  split
  · exact h
  · split
    · exact h
    · exact h.list _

theorem SysInv.lock (h : SysInv s) (name : CString) : SysInv (sysparamLock s name).1 := by
  unfold sysparamLock
  split
  · exact h
  · split
    · exact h
    · exact h.list _

/-! ### calls -/

theorem SysInv.step (h : SysInv s) {op : SysOp} (hg : Careful s op) (he : sysCall s op = some (s', n)) : SysInv s' := by
  cases op with
  | scan bdev offset len o =>
    obtain ⟨ho, hlen, hin, hlist⟩ := hg
    exact SysInv.scan ho hlen hin hlist he
  | reload o =>
    obtain ⟨ho, hin⟩ := hg
    have he : sysparamReload s o = some (s', n) := he
    unfold sysparamReload at he
    split at he
    · cases he
      exact h
    · rename_i bdev hb
      obtain ⟨h0, hlen, -, -⟩ := h.placed bdev hb
      rw [if_neg h0] at he
      exact SysInv.scan (s := { s with list := [], dirty := false }) ho hlen (hin bdev hb) (fun p hp => absurd hp List.not_mem_nil) he
  | write w =>
    obtain rfl := congrArg Prod.fst (Option.some.inj he)
    exact h.write hg
  | add name value mem =>
    obtain rfl := congrArg Prod.fst (Option.some.inj he)
    exact h.add name value mem
  | remove name =>
    obtain rfl := congrArg Prod.fst (Option.some.inj he)
    exact h.remove name
  | lock name =>
    obtain rfl := congrArg Prod.fst (Option.some.inj he)
    exact h.lock name

/-- a write changes no parameter -/
theorem write_list (s : Params) (w : WriteEnd) : (sysparamWrite s w).1.list = s.list := by
  have hcase := writeCase s w
  generalize sysparamWrite s w = r at hcase ⊢
  cases hcase <;> rfl

/-- locked parameters stay in the list -/
theorem locked_stay {op : SysOp} (he : sysCall s op = some (s', n)) (hop : ∀ o, op ≠ .reload o) {p : Sysparam}
    (hp : p ∈ s.list) (hl : p.isLocked = true) : p ∈ s'.list := by
  cases op with
  | scan bdev offset len o => exact scan_list he p hp
  | reload o => exact absurd rfl (hop o)
  | write w =>
    obtain rfl := congrArg Prod.fst (Option.some.inj he)
    rw [write_list]
    exact hp
  | add name value mem =>
    obtain rfl := congrArg Prod.fst (Option.some.inj he)
    unfold sysparamAdd
    split
    · exact hp
    · split
      · exact hp
      · exact List.mem_append_left _ hp
  | remove name =>
    obtain rfl := congrArg Prod.fst (Option.some.inj he)
    unfold sysparamRemove
    split
    · exact hp
    · rename_i param hf
      split
      · exact hp
      · rename_i hfree
        exact (mem_eraseP_of_ne hf hp fun e => hfree (e ▸ hl)).1
  | lock name =>
    obtain rfl := congrArg Prod.fst (Option.some.inj he)
    unfold sysparamLock
    split
    · exact hp
    · rename_i param hf
      split
      · exact hp
      · rename_i hfree
        exact (mem_eraseP_of_ne hf hp fun e => hfree (e ▸ hl)).2

theorem SysInv.persistent (h : SysInv s) {op : SysOp} (hg : Careful s op) (he : sysCall s op = some (s', n)) :
    Persistent s op s' n := by
  refine ⟨?_, ?_, fun hop p hp hl => locked_stay he hop hp hl⟩
  · rintro w rfl rfl o ho
    have he : sysparamWrite s w = (s', 0) := Option.some.inj he
    have hinv := h.write hg
    have hlist := write_list s w
    have hcase := writeCase s w
    rw [he] at hinv hlist hcase
    obtain ⟨bdev, hb, hclean⟩ : ∃ bdev, s'.bdev = some bdev ∧ s'.dirty = false := by
      cases hcase with
      | refused _ hneg => exact absurd hneg (lt_irrefl _)
      | clean _ hb hd => exact ⟨_, hb, hd⟩
      | written _ hb _ _ => exact ⟨_, hb, rfl⟩
    obtain ⟨s'', k, hreload, hk, hsame⟩ := hinv.reload hclean hb ho
    exact ⟨s'', k, hreload, hk, fun p => (hsame p).trans (by rw [show s'.list = s.list from hlist])⟩
  · rintro w rfl hw hfail
    have he : sysparamWrite s w = (s', n) := Option.some.inj he
    have hcase := writeCase s w
    rw [he] at hcase
    cases hcase with
    | refused _ hneg => exact hneg
    | clean hw' _ _ => cases hw'.symm.trans hw
    | erased _ _ _ _ => decide
    | written _ _ herase _ =>
      obtain hno | hno := hfail
      · cases hno.symm.trans herase
      · cases hno.symm.trans (hg hw herase).1

end

/-! ## the main result -/

theorem SysInv.init (devs : Nat → SysDev) : SysInv (.init devs) := ⟨nofun, nofun⟩

/-- **Every call of a careful run is persistent**, on any devices. -/
theorem sysparams_persist {s s' : Params} {op : SysOp} {n : Int} (h : sysparams.Run Careful s) (hg : Careful s op)
    (he : sysCall s op = some (s', n)) : Persistent s op s' n := by
  have hinv : SysInv s := by
    refine h.invariant ?_ fun s op s' hi hg he => ?_
    · rintro _ ⟨devs, rfl⟩
      exact .init devs
    · obtain ⟨r, hr, rfl⟩ := Option.map_eq_some_iff.mp he
      exact hi.step hg hr
  exact hinv.persistent hg he

/-! ## an empty device -/

/-- a device of 64 bytes -/
def emptyDevs : Nat → SysDev := fun _ => ⟨16, zeros 64⟩

def allFine : ScanEnd := ⟨true, true, [], []⟩

/-- the device is scanned, and a parameter is added -/
def addOps : List SysOp := [.scan 0 0 64 allFine, .add (.ofBytes [97]) [1, 2] true]

theorem emptyDevs_careful : Careful (.init emptyDevs) (.scan 0 0 64 allFine) := by
  have harea : (Params.init emptyDevs).area 0 0 64 = zeros 64 := by decide
  refine ⟨⟨rfl, rfl, nofun⟩, by decide, ?_, nofun⟩
  intro beyond
  have hzero := found_zeros 64 (0 + 64) []
  rw [List.append_nil] at hzero
  rw [harea, found_zeros, hzero]

/-- the parameter is written -/
theorem sysparams_persist_written : ∃ s s', sysparams.Run Careful s ∧
    sysCall s (.write ⟨true, true, true, fun _ => 0⟩) = some (s', 0) ∧
      Persistent s (.write ⟨true, true, true, fun _ => 0⟩) s' 0 := by
  have hinit : sysparams.Run Careful (.init emptyDevs) := .init ⟨_, rfl⟩
  obtain ⟨s, hs, hv⟩ := (Option.any_eq_true _ _).mp
    (show (Machine.exec (fun s op => (sysCall s op).map (·.1)) (.init emptyDevs) addOps).any
      (fun s => (∀ p ∈ s.list, p.name.bytes.length < 2 ^ 16 ∧ p.data.length < 2 ^ 16) ∧
        (sysparamWrite s ⟨true, true, true, fun _ => 0⟩).2 = 0) by decide)
  obtain ⟨hshort, hn⟩ := of_decide_eq_true hv
  obtain ⟨s₁, hs₁, hs⟩ := Option.bind_eq_some_iff.mp hs
  obtain ⟨s₂, hs₂, hs⟩ := Option.bind_eq_some_iff.mp hs
  cases hs
  have hadd : Careful s₁ (.add (.ofBytes [97]) [1, 2] true) := trivial
  have hrun := (hinit.step emptyDevs_careful hs₁).step hadd hs₂
  have hcall : sysCall s (.write ⟨true, true, true, fun _ => 0⟩) =
      some ((sysparamWrite s ⟨true, true, true, fun _ => 0⟩).1, 0) := congrArg some (Prod.ext rfl hn)
  exact ⟨s, _, hrun, hcall, sysparams_persist hrun (fun _ _ => ⟨rfl, hshort⟩) hcall⟩

/-- **The device fails to write**, and the write returns `NO_ERROR`. -/
theorem sysparams_persist_fails : ¬ ∀ (s s' : Params) (op : SysOp) (n : Int), sysparams.Reach s →
    sysCall s op = some (s', n) → Persistent s op s' n := by
  intro h
  have hinit : sysparams.Reach (.init emptyDevs) := .init ⟨_, rfl⟩
  obtain ⟨s, hs, hv⟩ := (Option.any_eq_true _ _).mp
    (show (Machine.exec (fun s op => (sysCall s op).map (·.1)) (.init emptyDevs) addOps).any
      (fun s => s.writes ⟨true, true, false, fun _ => 0⟩ = true ∧
        (sysparamWrite s ⟨true, true, false, fun _ => 0⟩).2 = 0) by decide)
  obtain ⟨hw, hn⟩ := of_decide_eq_true hv
  have hpers := h s _ (.write ⟨true, true, false, fun _ => 0⟩) 0 (hinit.exec _ hs) (congrArg some (Prod.ext rfl hn))
  exact lt_irrefl _ (hpers.reported _ rfl hw (.inr rfl))

end LkHv.Sysparams
