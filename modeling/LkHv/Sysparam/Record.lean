import LkHv.Kernel.Bytes
import LkHv.Kernel.Crc32
import Mathlib.Data.List.TakeWhile

/-!
# System parameters on a device (`lib/sysparam/sysparam.c`)

How a parameter is written to its area, and how an area is scanned for parameters.

* `CString`, `Sysparam`    a string without the byte 0; a parameter in memory;
* `sysparamReadPhys`, `scanLoop`    the parameter at a byte; the loop of `sysparam_scan`;
* `putSysparam`, `serialize`    one parameter, and all of them, in the buffer of `sysparam_write`;
* `record`                 the bytes of a parameter;
* `crc32_append`           a checksum goes on where another one ended;
* `scan_serialize`         a scan of what was written finds what was written.
-/

namespace LkHv

/-! ## checksums go on -/

theorem xor_lt32 {a b : Nat} (ha : a < 2 ^ 32) (hb : b < 2 ^ 32) : a ^^^ b < 2 ^ 32 := Nat.xor_lt_two_pow ha hb

theorem shiftRight_lt32 {a : Nat} (k : Nat) (h : a < 2 ^ 32) : a >>> k < 2 ^ 32 :=
  lt_of_le_of_lt (Nat.shiftRight_le a k) h

theorem crcTable_lt {n : Nat} (h : n < 2 ^ 32) : crcTable n < 2 ^ 32 := by
  have hstep : ∀ k, Nat.repeat (fun c => if c &&& 1 ≠ 0 then crcPoly ^^^ (c >>> 1) else c >>> 1) k n < 2 ^ 32 := by
    intro k
    induction k with
    | zero => exact h
    | succ k ih =>
      unfold Nat.repeat
      split
      · exact xor_lt32 (by decide) (shiftRight_lt32 1 ih)
      · exact shiftRight_lt32 1 ih
  exact hstep 8

/-- the loop of `crc32` stays in 32 bits -/
theorem crcFold_lt (b : List UInt8) : ∀ c < 2 ^ 32,
    b.foldl (fun c b => crcTable ((c ^^^ b.toNat) &&& 0xff) ^^^ (c >>> 8)) c < 2 ^ 32 := by
  induction b with
  | nil => exact fun c h => h
  | cons x b ih =>
    intro c h
    refine ih _ (xor_lt32 (crcTable_lt ?_) (shiftRight_lt32 8 h))
    exact lt_of_le_of_lt Nat.and_le_right (by decide)

theorem crc32_lt (c : Nat) (b : List UInt8) : crc32 c b < 2 ^ 32 :=
  xor_lt32 (crcFold_lt b _ (xor_lt32 (Nat.mod_lt _ (by decide)) (by decide))) (by decide)

/-- **A checksum goes on where another one ended.** -/
theorem crc32_append (c : Nat) (a b : List UInt8) : crc32 (crc32 c a) b = crc32 c (a ++ b) := by
  have hlt := crc32_lt c a
  unfold crc32 at hlt ⊢
  rw [Nat.mod_eq_of_lt hlt, Nat.xor_xor_cancel_right, List.foldl_append]

/-! ## parameters -/

/-- a string, without the byte 0 that ends it -/
structure CString where
  bytes : List UInt8
  nonzero : ∀ c ∈ bytes, c ≠ 0
  deriving DecidableEq

/-- the string at the start of some bytes -/
def CString.ofBytes (l : List UInt8) : CString :=
  ⟨l.takeWhile (· ≠ 0), fun c h => of_decide_eq_true (List.all_eq_true.mp List.all_takeWhile c h)⟩

theorem CString.ofBytes_bytes (s : CString) : CString.ofBytes s.bytes = s := by
  obtain ⟨l, hl⟩ := s
  unfold CString.ofBytes
  congr 1
  exact List.takeWhile_eq_self_iff.mpr fun c hc => decide_eq_true (hl c hc)

namespace Sysparams

/-- `'SYSP'` -/
def SYSPARAM_MAGIC : Nat := 0x53595350

/-- `SYSPARAM_FLAG_LOCK` -/
def SYSPARAM_FLAG_LOCK : UInt32 := 1

/-- `struct sysparam` -/
structure Sysparam where
  flags : UInt32
  name : CString
  data : List UInt8
  deriving DecidableEq

/-- `sysparam_is_locked` -/
def Sysparam.isLocked (p : Sysparam) : Bool := p.flags &&& SYSPARAM_FLAG_LOCK ≠ 0

/-- `ROUNDUP(n, 4)` -/
def roundup4 (n : Nat) : Nat := (n + 3) / 4 * 4

/-- `sizeof(struct sysparam_phys)` -/
def physSize : Nat := 16

/-- `sysparam_len` -/
def sysparamLen (namelen datalen : Nat) : Nat := physSize + roundup4 namelen + roundup4 datalen

def zeros (n : Nat) : List UInt8 := List.replicate n 0

/-! ## reading -/

/-- `sysparam_read_phys` -/
def sysparamReadPhys (b : List UInt8) (pos : Nat) : Sysparam :=
  let namelen := u16 b (pos + 12)
  let datalen := u16 b (pos + 14)
  ⟨UInt32.ofNat (u32 b (pos + 8)), CString.ofBytes ((b.drop (pos + physSize)).take namelen),
    (b.drop (pos + physSize + roundup4 namelen)).take datalen⟩

/-- the loop of `sysparam_scan` over `len` bytes, with the end of the area at `lim`: the parameters, and whether there
was memory for all of them; `mem` is what the heap answers -/
@[local grind =] def scanLoop (b : List UInt8) (lim len : Nat) : Nat → Nat → List Bool → List Sysparam × Bool
  | 0, _, _ => ([], true)
  | n + 1, pos, mem =>
    if len ≤ pos then ([], true)
    else if u32 b pos ≠ SYSPARAM_MAGIC then scanLoop b lim len n (pos + 4) mem
    else
      let splen := sysparamLen (u16 b (pos + 12)) (u16 b (pos + 14))
      if pos + splen > lim then ([], true)
      else if u32 b (pos + 4) ≠ crc32 0 ((b.drop (pos + 8)).take (splen - 8)) then
        scanLoop b lim len n (pos + splen) mem
      else if ¬ mem.headD true then ([], false)
      else
        let r := scanLoop b lim len n (pos + splen) mem.tail
        (sysparamReadPhys b pos :: r.1, r.2)

/-! ## writing -/

/-- the checksum of `sysparam_write` -/
def writeCrc (p : Sysparam) : Nat :=
  let namelen := p.name.bytes.length
  let sum := crc32 0 (bytes32 p.flags.toNat ++ (bytes16 namelen ++ bytes16 p.data.length))
  let sum := crc32 sum p.name.bytes
  let sum := if namelen % 4 ≠ 0 then crc32 sum (zeros (4 - namelen % 4)) else sum
  crc32 sum (p.data ++ zeros (roundup4 p.data.length - p.data.length))

/-- one parameter behind what is in the buffer already -/
def putSysparam (buf : List UInt8) (p : Sysparam) : List UInt8 :=
  let namelen := p.name.bytes.length
  let buf := buf ++ (bytes32 SYSPARAM_MAGIC ++ (bytes32 (writeCrc p) ++ (bytes32 p.flags.toNat ++
    (bytes16 namelen ++ bytes16 p.data.length))))
  let buf := buf ++ (p.name.bytes ++ zeros ((namelen + 1) / 2 * 2 - namelen))
  let buf := if buf.length % 4 ≠ 0 then buf ++ zeros 2 else buf
  buf ++ (p.data ++ zeros (roundup4 p.data.length - p.data.length))

/-- the length that `sysparam_write` reckons with -/
def totalLen (l : List Sysparam) : Nat := (l.map fun p => sysparamLen p.name.bytes.length p.data.length).sum

/-- the buffer of `sysparam_write` -/
def serialize (l : List Sysparam) (len : Nat) : List UInt8 :=
  let buf := l.foldl putSysparam []
  buf ++ zeros (len - buf.length)

/-! ## a record -/

/-- the bytes that the checksum is about -/
def body (p : Sysparam) : List UInt8 :=
  bytes32 p.flags.toNat ++ (bytes16 p.name.bytes.length ++ (bytes16 p.data.length ++ (p.name.bytes ++
    (zeros (roundup4 p.name.bytes.length - p.name.bytes.length) ++
      (p.data ++ zeros (roundup4 p.data.length - p.data.length))))))

/-- the bytes of a parameter -/
def record (p : Sysparam) : List UInt8 := bytes32 SYSPARAM_MAGIC ++ (bytes32 (writeCrc p) ++ body p)

theorem zeros_length (n : Nat) : (zeros n).length = n := List.length_replicate

theorem le_roundup4 (n : Nat) : n ≤ roundup4 n := by
  unfold roundup4
  omega

theorem body_length (p : Sysparam) : (body p).length = sysparamLen p.name.bytes.length p.data.length - 8 := by
  have h₁ := le_roundup4 p.name.bytes.length
  have h₂ := le_roundup4 p.data.length
  unfold body sysparamLen physSize
  simp only [List.length_append, bytes32_length, bytes16_length, zeros_length]
  lia

theorem record_length (p : Sysparam) : (record p).length = sysparamLen p.name.bytes.length p.data.length := by
  unfold record
  rw [List.length_append, List.length_append, body_length, bytes32_length, bytes32_length]
  unfold sysparamLen physSize
  lia

theorem writeCrc_eq (p : Sysparam) : writeCrc p = crc32 0 (body p) := by
  have hpad : (if p.name.bytes.length % 4 ≠ 0 then
      crc32 (crc32 (crc32 0 (bytes32 p.flags.toNat ++ (bytes16 p.name.bytes.length ++ bytes16 p.data.length)))
        p.name.bytes) (zeros (4 - p.name.bytes.length % 4))
      else crc32 (crc32 0 (bytes32 p.flags.toNat ++ (bytes16 p.name.bytes.length ++ bytes16 p.data.length)))
        p.name.bytes) =
      crc32 (crc32 (crc32 0 (bytes32 p.flags.toNat ++ (bytes16 p.name.bytes.length ++ bytes16 p.data.length)))
        p.name.bytes) (zeros (roundup4 p.name.bytes.length - p.name.bytes.length)) := by
    split
    · rw [show roundup4 p.name.bytes.length - p.name.bytes.length = 4 - p.name.bytes.length % 4 by
        unfold roundup4
        omega]
    · rw [show roundup4 p.name.bytes.length - p.name.bytes.length = 0 by
        unfold roundup4
        omega, crc32_append _ _ (zeros 0)]
      rw [zeros, List.replicate_zero, List.append_nil]
  unfold writeCrc
  dsimp only
  rw [hpad, crc32_append, crc32_append, crc32_append]
  simp only [body, List.append_assoc]

/-- behind a multiple of 4 the bytes of a parameter are put as they are -/
theorem putSysparam_eq {buf : List UInt8} (h : buf.length % 4 = 0) (p : Sysparam) :
    putSysparam buf p = buf ++ record p := by
  have hname : ∀ buf : List UInt8, buf.length % 4 = 0 →
      (if (buf ++ (p.name.bytes ++ zeros ((p.name.bytes.length + 1) / 2 * 2 - p.name.bytes.length))).length % 4 ≠ 0 then
        buf ++ (p.name.bytes ++ zeros ((p.name.bytes.length + 1) / 2 * 2 - p.name.bytes.length)) ++ zeros 2
        else buf ++ (p.name.bytes ++ zeros ((p.name.bytes.length + 1) / 2 * 2 - p.name.bytes.length))) =
      buf ++ (p.name.bytes ++ zeros (roundup4 p.name.bytes.length - p.name.bytes.length)) := by
    intro buf hbuf
    have hlen : (buf ++ (p.name.bytes ++ zeros ((p.name.bytes.length + 1) / 2 * 2 - p.name.bytes.length))).length =
        buf.length + (p.name.bytes.length + ((p.name.bytes.length + 1) / 2 * 2 - p.name.bytes.length)) := by
      rw [List.length_append, List.length_append, zeros_length]
    rw [hlen]
    split
    · rw [List.append_assoc, List.append_assoc, zeros, zeros, List.replicate_append_replicate]
      congr 4
      unfold roundup4
      omega
    · congr 4
      unfold roundup4
      omega
  unfold putSysparam
  dsimp only
  rw [hname]
  · simp only [record, body, List.append_assoc]
  · simp only [List.length_append, bytes32_length, bytes16_length]
    omega

theorem record_length_mod (p : Sysparam) : (record p).length % 4 = 0 := by
  rw [record_length]
  unfold sysparamLen physSize roundup4
  lia

theorem foldl_putSysparam (l : List Sysparam) : ∀ buf : List UInt8, buf.length % 4 = 0 →
    l.foldl putSysparam buf = buf ++ l.flatMap record := by
  induction l with
  | nil =>
    intro buf _
    exact (List.append_nil buf).symm
  | cons p l ih =>
    intro buf h
    rw [List.foldl_cons, putSysparam_eq h, ih _ ?_, List.flatMap_cons, List.append_assoc]
    rw [List.length_append, Nat.add_mod, h, record_length_mod]

theorem serialize_eq (l : List Sysparam) (len : Nat) :
    serialize l len = l.flatMap record ++ zeros (len - (l.flatMap record).length) := by
  unfold serialize
  dsimp only
  rw [foldl_putSysparam l [] rfl, List.nil_append]

theorem records_length (l : List Sysparam) : (l.flatMap record).length = totalLen l := by
  unfold totalLen
  rw [List.length_flatMap]
  congr 1
  exact List.map_congr_left fun p _ => record_length p

/-! ## the record at a byte -/

theorem take_mid (a m c : List UInt8) : ((a ++ (m ++ c)).drop a.length).take m.length = m := by
  rw [List.drop_left, List.take_left]

theorem cut_append (a m c : List UInt8) : a ++ (m ++ c) = (a ++ m) ++ c := (List.append_assoc a m c).symm

/-- what is read behind some bytes, the count of them being known -/
theorem at_append {β : Type} {f : List UInt8 → Nat → β} {b x : List UInt8} {n : Nat} {y : β} (hn : n = x.length)
    (h : f b x.length = y) : f b n = y := by
  rw [hn]
  exact h

/-- the fields of a record, at a byte of a buffer -/
structure RecordAt (b : List UInt8) (pos : Nat) (p : Sysparam) : Prop where
  magic : u32 b pos = SYSPARAM_MAGIC
  crc : u32 b (pos + 4) = writeCrc p
  flags : u32 b (pos + 8) = p.flags.toNat
  namelen : u16 b (pos + 12) = p.name.bytes.length
  datalen : u16 b (pos + 14) = p.data.length
  body : (b.drop (pos + 8)).take (sysparamLen p.name.bytes.length p.data.length - 8) = body p
  name : (b.drop (pos + physSize)).take p.name.bytes.length = p.name.bytes
  data : (b.drop (pos + physSize + roundup4 p.name.bytes.length)).take p.data.length = p.data

/-- the lengths of a parameter fit into the 16 bits of a record -/
def Sysparam.Short (p : Sysparam) : Prop := p.name.bytes.length < 2 ^ 16 ∧ p.data.length < 2 ^ 16

theorem recordAt {p : Sysparam} (hs : p.Short) (a rest : List UInt8) :
    RecordAt (a ++ (record p ++ rest)) a.length p := by
  -- the buffer, cut in front of one field after the other
  have h4 : a ++ (record p ++ rest) = (a ++ bytes32 SYSPARAM_MAGIC) ++ (bytes32 (writeCrc p) ++ (body p ++ rest)) := by
    simp only [record, List.append_assoc]
  have h8 : a ++ (record p ++ rest) =
      (a ++ (bytes32 SYSPARAM_MAGIC ++ bytes32 (writeCrc p))) ++ (body p ++ rest) := by
    simp only [record, List.append_assoc]
  have h12 : a ++ (record p ++ rest) = (a ++ (bytes32 SYSPARAM_MAGIC ++ (bytes32 (writeCrc p) ++
      bytes32 p.flags.toNat))) ++ (bytes16 p.name.bytes.length ++ (bytes16 p.data.length ++ (p.name.bytes ++
        (zeros (roundup4 p.name.bytes.length - p.name.bytes.length) ++
          (p.data ++ (zeros (roundup4 p.data.length - p.data.length) ++ rest)))))) := by
    simp only [record, Sysparams.body, List.append_assoc]
  have h14 := h12.trans (cut_append _ _ _)
  have h16 := h14.trans (cut_append _ _ _)
  have hpad := h16.trans (cut_append _ _ _)
  have hdata := hpad.trans (cut_append _ _ _)
  have h8' : a ++ (record p ++ rest) = (a ++ (bytes32 SYSPARAM_MAGIC ++ bytes32 (writeCrc p))) ++
      (bytes32 p.flags.toNat ++ ((body p).drop 4 ++ rest)) := by
    rw [h8]
    rfl
  have hle := le_roundup4 p.name.bytes.length
  exact
    { magic := by
        rw [record, List.append_assoc]
        exact u32_bytes32 (by decide) a _
      crc := by
        rw [h4]
        refine at_append (by simp) (u32_bytes32 ?_ _ _)
        rw [writeCrc_eq]
        exact crc32_lt 0 _
      flags := by
        rw [h8']
        exact at_append (by simp) (u32_bytes32 p.flags.toNat_lt _ _)
      namelen := by
        rw [h12]
        exact at_append (by simp) (u16_bytes16 hs.1 _ _)
      datalen := by
        rw [h14]
        exact at_append (by simp) (u16_bytes16 hs.2 _ _)
      body := by
        rw [h8, ← body_length]
        exact at_append (f := fun b n => (b.drop n).take (Sysparams.body p).length) (by simp) (take_mid _ _ _)
      name := by
        rw [h16]
        exact at_append (f := fun b n => (b.drop n).take p.name.bytes.length) (by simp [physSize]) (take_mid _ _ _)
      data := by
        rw [hdata]
        refine at_append (f := fun b n => (b.drop n).take p.data.length) ?_ (take_mid _ _ _)
        simp only [List.length_append, bytes32_length, bytes16_length, zeros_length, physSize]
        omega }

/-! ## scanning what was written -/

theorem scanLoop_done {b : List UInt8} {lim len pos : Nat} (h : len ≤ pos) (n : Nat) (mem : List Bool) :
    scanLoop b lim len n pos mem = ([], true) := by
  cases n with
  | zero => rfl
  | succ n =>
    unfold scanLoop
    rw [if_pos h]

/-- with memory for all parameters it does not matter how much there is -/
theorem scanLoop_mem (b : List UInt8) (lim len : Nat) : ∀ n pos mem, (∀ x ∈ mem, x = true) →
    scanLoop b lim len n pos mem = ((scanLoop b lim len n pos []).1, true) := by
  intro n
  induction n with
  | zero => exact fun _ _ _ => rfl
  | succ n ih =>
    intro pos mem hmem
    have htail : ∀ x ∈ mem.tail, x = true := fun x hx => hmem x (List.mem_of_mem_tail hx)
    have hhead : mem.headD true = true := by
      cases mem with
      | nil => rfl
      | cons x mem => exact hmem x (.head _)
    unfold scanLoop
    dsimp only
    split
    · rfl
    · split
      · exact ih _ _ hmem
      · split
        · rfl
        · split
          · exact ih _ _ hmem
          · rw [ih _ _ htail]
            rfl

/-- the parameters in an area, if there is memory for all of them -/
def found (b : List UInt8) (lim len : Nat) : List Sysparam := (scanLoop b lim len (len + 1) 0 []).1

/-- no record starts in zeros -/
theorem scanLoop_zeros (a rest : List UInt8) (k lim : Nat) : ∀ n pos mem, a.length ≤ pos →
    scanLoop (a ++ (zeros k ++ rest)) lim (a.length + k) n pos mem = ([], true) := by
  intro n
  induction n with
  | zero => exact fun _ _ _ => rfl
  | succ n ih =>
    intro pos mem hpos
    unfold scanLoop
    split
    · rfl
    · rename_i hlt
      have hzero : (a ++ (zeros k ++ rest)).getD pos 0 = 0 := by
        rw [show pos = a.length + (pos - a.length) by omega, getD_mid a (zeros k) rest (by rw [zeros_length]; omega)]
        exact List.getD_replicate _ (by omega)
      have hmagic : u32 (a ++ (zeros k ++ rest)) pos ≠ SYSPARAM_MAGIC := by
        unfold u32 SYSPARAM_MAGIC
        rw [hzero]
        show 0 + _ + _ + _ ≠ _
        omega
      rw [if_pos hmagic]
      exact ih _ _ (by omega)

theorem found_zeros (k lim : Nat) (rest : List UInt8) : found (zeros k ++ rest) lim k = [] := by
  have h := scanLoop_zeros [] rest k lim (k + 1) 0 [] (Nat.le_refl _)
  rw [List.nil_append, List.length_nil, Nat.zero_add] at h
  unfold found
  rw [h]

theorem scanLoop_records (rest : List UInt8) (k : Nat) {lim len : Nat} {l : List Sysparam} (hs : ∀ p ∈ l, p.Short) :
    ∀ (a : List UInt8) (n : Nat), a.length + totalLen l + k = len → len ≤ lim → len < a.length + n →
      (scanLoop (a ++ (l.flatMap record ++ (zeros k ++ rest))) lim len n a.length []).1 = l := by
  induction l with
  | nil =>
    intro a n hlen _ _
    rw [← show a.length + k = len from hlen, List.flatMap_nil, List.nil_append, scanLoop_zeros a rest k lim n _ _ (Nat.le_refl _)]
  | cons p l ih =>
    intro a n hlen hlim hn
    have htotal : totalLen (p :: l) = sysparamLen p.name.bytes.length p.data.length + totalLen l := by
      simp [totalLen]
    have h16 : 16 ≤ sysparamLen p.name.bytes.length p.data.length := by
      unfold sysparamLen physSize
      lia
    have hrec := recordAt (hs p (.head _)) a (l.flatMap record ++ (zeros k ++ rest))
    have hbuf : a ++ ((p :: l).flatMap record ++ (zeros k ++ rest)) =
        a ++ (record p ++ (l.flatMap record ++ (zeros k ++ rest))) := by
      rw [List.flatMap_cons, List.append_assoc]
    obtain ⟨m, rfl⟩ : ∃ m, n = m + 1 := ⟨n - 1, by lia⟩
    have hread : sysparamReadPhys (a ++ (record p ++ (l.flatMap record ++ (zeros k ++ rest)))) a.length = p := by
      unfold sysparamReadPhys
      dsimp only
      rw [hrec.namelen, hrec.datalen, hrec.flags, hrec.name, hrec.data, CString.ofBytes_bytes, UInt32.ofNat_toNat]
    have hnext := ih (fun q hq => hs q (.tail _ hq)) (a ++ record p) m
      (by rw [List.length_append, record_length]; lia) hlim (by rw [List.length_append, record_length]; lia)
    rw [List.length_append, record_length, List.append_assoc] at hnext
    rw [hbuf]
    unfold scanLoop
    dsimp only
    rw [if_neg (by lia), hrec.magic, if_neg (fun h => h rfl), hrec.namelen, hrec.datalen, if_neg (by lia), hrec.crc,
      hrec.body, writeCrc_eq, if_neg (fun h => h rfl), if_neg (by decide), hread]
    exact congrArg (p :: ·) hnext

/-- **A scan of what was written finds what was written**, whatever lies behind the area. -/
theorem scan_serialize {l : List Sysparam} (hs : ∀ p ∈ l, p.Short) {len lim : Nat} (hfit : totalLen l ≤ len)
    (hlim : len ≤ lim) (beyond : List UInt8) : found (serialize l len ++ beyond) lim len = l := by
  have h := scanLoop_records beyond (len - totalLen l) hs [] (len + 1) (by
    rw [List.length_nil]
    lia) hlim (by lia)
  rw [List.nil_append] at h
  unfold found
  rw [serialize_eq, records_length, List.append_assoc]
  exact h

end Sysparams
end LkHv
