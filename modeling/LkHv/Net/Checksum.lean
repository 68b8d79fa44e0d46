import LkHv.Lib.OnesSum
import Mathlib.Data.Nat.Bitwise

/-!
# Internet checksums

`ones_sum16`, `rfc1701_chksum` (`lib/minip/chksum.c`) and what is built on them: `minip_build_ipv4_hdr` against the
check of `handle_ipv4_packet`, and the segments of `tcp_send` against the check of `tcp_input`.

A buffer is its bytes; `ones_sum16` and `rfc1701_chksum` take it as words in the order of memory, low byte first.

* `rfc1071Sum`              the sum of RFC 1071, word by word with the end-around carry;
* `onesSum16_eq_iff`, `rfc1701Chksum_eq_iff`    when the two routines compute it;
* `ipv4Header_passes_iff`, `tcpSegment_passes`  which packets of minip pass its own checks;
* `checksums_rfc1071_iff`   all of it.
-/

namespace LkHv.Net.Checksum

/-! ## the code -/

/-- a word in memory, low byte first -/
def leWord (lo hi : UInt8) : Nat := lo.toNat + 256 * hi.toNat

/-- `htons` -/
def htons (x : UInt16) : UInt16 := (x <<< 8) ||| (x >>> 8)

/-- `htonl` -/
def htonl (x : UInt32) : UInt32 :=
  (x <<< 24) ||| ((x <<< 8) &&& (0xff0000 : UInt32)) ||| ((x >>> 8) &&& (0xff00 : UInt32)) ||| (x >>> 24)

/-- one turn of the loop of `ones_sum16` -/
def addWord (sum w : Nat) : Nat :=
  let sum := (sum + w) % 2 ^ 32
  if sum &&& 0x80000000 ≠ 0 then (sum &&& 0xffff) + (sum >>> 16) else sum

/-- the loop of `ones_sum16`, and the odd byte behind it -/
def sumWords (sum : Nat) : List UInt8 → Nat
  | lo :: hi :: buf => sumWords (addWord sum (leWord lo hi)) buf
  | [b] => (sum + (htons (b.toUInt16 <<< 8)).toNat) % 2 ^ 32
  | [] => sum

/-- `while (sum >> 16) sum = (sum & 0xffff) + (sum >> 16);` -/
def foldSum (sum : Nat) : Nat := if _ : sum >>> 16 = 0 then sum else foldSum ((sum &&& 0xffff) + (sum >>> 16))
termination_by sum
decreasing_by
  rename_i h
  rw [Nat.shiftRight_eq_div_pow] at h ⊢
  have h1 : sum &&& 0xffff ≤ sum % 2 ^ 16 := by rw [show (0xffff : Nat) = 2 ^ 16 - 1 from rfl,
    Nat.and_two_pow_sub_one_eq_mod]
  omega

def onesSum16 (sum : UInt32) (buf : List UInt8) : UInt16 := .ofNat (foldSum (sumWords sum.toNat buf))

/-- `for (i = 0; i < len / 2; i++) total += p[i];` -/
def totalWords (total : Nat) : List UInt8 → Nat
  | lo :: hi :: buf => totalWords ((total + leWord lo hi) % 2 ^ 32) buf
  | [_] => total
  | [] => total

def rfc1701Chksum (buf : List UInt8) : UInt16 :=
  let total := totalWords 0 buf
  ~~~UInt16.ofNat ((total &&& 0xFFFF) + (total >>> 16))

/-- a 16-bit field as it lies in memory -/
def le16 (x : UInt16) : List UInt8 := [.ofNat x.toNat, .ofNat (x.toNat / 256)]

def le32 (x : UInt32) : List UInt8 := le16 (.ofNat x.toNat) ++ le16 (.ofNat (x.toNat / 65536))

/-- `struct ipv4_hdr` -/
structure Ipv4Hdr where
  verIhl : UInt8
  dscpEcn : UInt8
  len : UInt16
  id : UInt16
  flagsFrags : UInt16
  ttl : UInt8
  proto : UInt8
  chksum : UInt16
  srcAddr : UInt32
  dstAddr : UInt32

def Ipv4Hdr.bytes (h : Ipv4Hdr) : List UInt8 :=
  [h.verIhl, h.dscpEcn] ++ (le16 h.len ++ (le16 h.id ++ (le16 h.flagsFrags ++ ([h.ttl, h.proto] ++
    (le16 h.chksum ++ (le32 h.srcAddr ++ le32 h.dstAddr))))))

/-- the header before its checksum is there -/
def blankIpv4Hdr (minipIp dst : UInt32) (proto : UInt8) (len : UInt16) : Ipv4Hdr where
  verIhl := 0x45
  dscpEcn := 0
  len := htons (20 + len)
  id := 0
  flagsFrags := 0x40
  ttl := 64
  proto := proto
  chksum := 0
  srcAddr := minipIp
  dstAddr := dst

def minipBuildIpv4Hdr (minipIp dst : UInt32) (proto : UInt8) (len : UInt16) : Ipv4Hdr :=
  let ipv4 := blankIpv4Hdr minipIp dst proto len
  { ipv4 with chksum := rfc1701Chksum ipv4.bytes }

/-- `handle_ipv4_packet`, up to and with the check of the header's checksum -/
def handleIpv4Check (data : List UInt8) : Bool :=
  let verIhl := data.headD 0
  let headerLen := (verIhl &&& 0xf).toNat * 4
  if data.length < 20 then false
  else if (verIhl >>> 4) &&& 0xf ≠ 4 then false
  else if data.length < headerLen then false
  else decide (rfc1701Chksum (data.take headerLen) = 0)

def IP_PROTO_TCP : UInt8 := 0x6

/-- `tcp_pseudo_header_t` -/
def pseudoHeader (sourceAddr destAddr : UInt32) (dlen : Nat) : List UInt8 :=
  le32 sourceAddr ++ (le32 destAddr ++ ([0, IP_PROTO_TCP] ++ le16 (htons (.ofNat dlen))))

def cksumPheader (pheader buf : List UInt8) : UInt16 := ~~~onesSum16 (onesSum16 0 pheader).toUInt32 buf

/-- `tcp_header_t` -/
structure TcpHeader where
  sourcePort : UInt16
  destPort : UInt16
  seqNum : UInt32
  ackNum : UInt32
  lengthFlags : UInt16
  winSize : UInt16
  checksum : UInt16
  urgPointer : UInt16

def TcpHeader.bytes (h : TcpHeader) : List UInt8 :=
  le16 h.sourcePort ++ (le16 h.destPort ++ (le32 h.seqNum ++ (le32 h.ackNum ++ (le16 h.lengthFlags ++
    (le16 h.winSize ++ (le16 h.checksum ++ le16 h.urgPointer))))))

/-- the header that `tcp_send` fills in -/
def fillHeader (destPort srcPort flags : UInt16) (optionsLength : Nat) (ack sequence : UInt32) (windowSize : UInt16) :
    TcpHeader where
  sourcePort := htons srcPort
  destPort := htons destPort
  seqNum := htonl sequence
  ackNum := htonl ack
  lengthFlags := htons (.ofNat (((20 + optionsLength) / 4) <<< 12 ||| flags.toNat))
  winSize := htons windowSize
  checksum := 0
  urgPointer := 0

/-- the packet that `tcp_send` hands to `minip_ipv4_send` -/
def tcpSend (destIp : UInt32) (destPort : UInt16) (srcIp : UInt32) (srcPort : UInt16) (buf : List UInt8)
    (flags : UInt16) (options : List UInt8) (ack sequence : UInt32) (windowSize : UInt16) : List UInt8 :=
  let header := fillHeader destPort srcPort flags options.length ack sequence windowSize
  let data := header.bytes ++ (options ++ buf)
  let checksum := cksumPheader (pseudoHeader srcIp destIp data.length) data
  { header with checksum := checksum }.bytes ++ (options ++ buf)

/-- the check of the checksum in `tcp_input` -/
def tcpInputCheck (srcIp dstIp : UInt32) (data : List UInt8) : Bool :=
  decide (cksumPheader (pseudoHeader srcIp dstIp data.length) data = 0)

/-! ## what is claimed -/

/-- the 16-bit words of a buffer, the odd byte at its end padded with zero -/
def words : List UInt8 → List Nat
  | lo :: hi :: buf => leWord lo hi :: words buf
  | [b] => [leWord b 0]
  | [] => []

/-- the sum of RFC 1071, from both halves of `sum` on -/
def rfc1071Sum (sum : UInt32) (buf : List UInt8) : Nat :=
  (words buf).foldl (OnesSum.add 0xffff) (OnesSum.add 0xffff (sum.toNat % 65536) (sum.toNat / 65536))

/-- the words that lie in the buffer whole -/
def pairs : List UInt8 → List Nat
  | lo :: hi :: buf => leWord lo hi :: pairs buf
  | [_] => []
  | [] => []

/-- the odd byte at the end, or zero -/
def oddByte : List UInt8 → Nat
  | _ :: _ :: buf => oddByte buf
  | [b] => b.toNat
  | [] => 0

/-- the first addition, before any fold, fits 32 bits -/
def FirstFits (sum : UInt32) (buf : List UInt8) : Prop := sum.toNat + (words buf).headD 0 < 2 ^ 32

/-- the two halves of the 32-bit total of `t`, added once -/
def halves (t : Nat) : Nat := t % 65536 + t / 65536 % 65536

/-- what `rfc1701_chksum` leaves out does not show: the carries out of 32 bits, the carry of its only fold and the odd
byte make a multiple of `0xffff`, and no sum but zero ends as zero -/
def LossHidden (buf : List UInt8) : Prop :=
  let t := (pairs buf).sum
  (t / 2 ^ 32 + halves t / 65536 + oddByte buf) % 65535 = 0 ∧
    ((t % 2 ^ 32 ≠ 0 ∧ halves t ≠ 65536) ∨ t + oddByte buf = 0)

instance (sum : UInt32) (buf : List UInt8) : Decidable (FirstFits sum buf) := inferInstanceAs (Decidable (_ < _))

instance (buf : List UInt8) : Decidable (LossHidden buf) := inferInstanceAs (Decidable (_ ∧ _))

/-- one fold is enough for the words of the header -/
def OneFold (h : Ipv4Hdr) : Prop := halves (words h.bytes).sum < 65536

instance (h : Ipv4Hdr) : Decidable (OneFold h) := inferInstanceAs (Decidable (_ < _))

/-! ## words -/

theorem leWord_le (lo hi : UInt8) : leWord lo hi ≤ 0xffff := by
  have h1 := lo.toNat_lt
  have h2 := hi.toNat_lt
  unfold leWord
  omega

theorem words_le : ∀ (buf : List UInt8), ∀ w ∈ words buf, w ≤ 0xffff
  | lo :: hi :: buf, w, h => by
    rcases List.mem_cons.1 h with rfl | h
    · exact leWord_le lo hi
    · exact words_le buf w h
  | [b], w, h => by
    rw [words, List.mem_singleton] at h
    rw [h]
    exact leWord_le b 0
  | [], w, h => by cases h

theorem sum_words_le : ∀ buf : List UInt8, (words buf).sum ≤ 0xffff * buf.length
  | lo :: hi :: buf => by
    have h1 := leWord_le lo hi
    have h2 := sum_words_le buf
    rw [words, List.sum_cons, List.length_cons, List.length_cons]
    omega
  | [b] => by
    have h := leWord_le b 0
    rw [words, List.sum_cons, List.sum_nil, List.length_singleton]
    omega
  | [] => Nat.le_refl _

/-- the odd byte is a word with a zero behind it -/
theorem leWord_zero (b : UInt8) : leWord b 0 = b.toNat := by
  rw [leWord]
  rfl

theorem sum_words : ∀ buf : List UInt8, (words buf).sum = (pairs buf).sum + oddByte buf
  | lo :: hi :: buf => by
    rw [words, pairs, oddByte, List.sum_cons, List.sum_cons, sum_words buf, Nat.add_assoc]
  | [b] => by
    rw [words, pairs, oddByte, List.sum_cons, List.sum_nil, leWord_zero, Nat.add_comm]
  | [] => rfl

theorem oddByte_of_even : ∀ buf : List UInt8, buf.length % 2 = 0 → oddByte buf = 0
  | lo :: hi :: buf, h => by
    rw [List.length_cons, List.length_cons] at h
    exact oddByte_of_even buf (by omega)
  | [b], h => by
    rw [List.length_singleton] at h
    omega
  | [], _ => rfl

theorem words_pair (lo hi : UInt8) (buf : List UInt8) : words ([lo, hi] ++ buf) = leWord lo hi :: words buf := rfl

theorem words_le16 (x : UInt16) (buf : List UInt8) : words (le16 x ++ buf) = x.toNat :: words buf := by
  have h := x.toNat_lt
  rw [le16, words_pair, leWord, UInt8.toNat_ofNat', UInt8.toNat_ofNat']
  congr 1
  omega

theorem words_le32 (x : UInt32) (buf : List UInt8) :
    words (le32 x ++ buf) = x.toNat % 65536 :: x.toNat / 65536 :: words buf := by
  have h := x.toNat_lt
  rw [le32, List.append_assoc, words_le16, words_le16, UInt16.toNat_ofNat', UInt16.toNat_ofNat']
  congr 2
  omega

/-! ## `ones_sum16` -/

/-- a number and the sum of its halves fold to the same word -/
theorem fold_halves (n : Nat) : OnesSum.fold 0xffff (n % 65536 + n / 65536) = OnesSum.fold 0xffff n := by
  rw [OnesSum.fold_eq_iff (by decide)]
  omega

theorem and_ffff (n : Nat) : n &&& 0xffff = n % 65536 := Nat.and_two_pow_sub_one_eq_mod n 16

theorem shiftRight_16 (n : Nat) : n >>> 16 = n / 65536 := Nat.shiftRight_eq_div_pow n 16

theorem foldSum_eq (n : Nat) : foldSum n = OnesSum.fold 0xffff n := by
  induction n using foldSum.induct with
  | case1 n h =>
    rw [shiftRight_16] at h
    rw [foldSum, dif_pos (by rw [shiftRight_16, h]), OnesSum.fold_of_le (by omega)]
  | case2 n h ih => rw [foldSum, dif_neg h, ih, and_ffff, shiftRight_16, fold_halves]

/-- the bit that makes the loop fold leaves room for the next word -/
theorem addWord_spec (sum w : Nat) :
    addWord sum w < 2 ^ 31 ∧ OnesSum.fold 0xffff (addWord sum w) = OnesSum.fold 0xffff ((sum + w) % 2 ^ 32) := by
  have hbit : (sum + w) % 2 ^ 32 &&& 0x80000000 = 0 ↔ (sum + w) % 2 ^ 32 < 2 ^ 31 := by
    rw [show (0x80000000 : Nat) = 2 ^ 31 from rfl, Nat.and_two_pow, Nat.testBit_eq_decide_div_mod_eq]
    by_cases h : (sum + w) % 2 ^ 32 / 2 ^ 31 % 2 = 1
    · rw [decide_eq_true h, Bool.toNat_true]
      omega
    · rw [decide_eq_false h, Bool.toNat_false]
      omega
  unfold addWord
  dsimp only
  rw [and_ffff, shiftRight_16]
  split
  · exact ⟨by omega, fold_halves _⟩
  · rename_i h
    exact ⟨hbit.1 (by omega), rfl⟩

theorem htons_shift (b : UInt8) : (htons (b.toUInt16 <<< 8)).toNat = b.toNat := by
  have h := b.toNat_lt
  have h1 : (b.toUInt16 <<< 8).toNat = b.toNat * 256 := by
    rw [UInt16.toNat_shiftLeft, UInt8.toNat_toUInt16, Nat.shiftLeft_eq]
    exact Nat.mod_eq_of_lt (by change _ * 2 ^ 8 < _; omega)
  rw [htons, UInt16.toNat_or, UInt16.toNat_shiftLeft, UInt16.toNat_shiftRight, h1, Nat.shiftLeft_eq,
    Nat.shiftRight_eq_div_pow]
  change b.toNat * 256 * 2 ^ 8 % 2 ^ 16 ||| b.toNat * 256 / 2 ^ 8 = b.toNat
  rw [show b.toNat * 256 * 2 ^ 8 % 2 ^ 16 = 0 by omega, show b.toNat * 256 / 2 ^ 8 = b.toNat by omega, Nat.zero_or]

/-- below bit 31 nothing is lost -/
theorem sumWords_fold : ∀ (buf : List UInt8) (sum : Nat), sum < 2 ^ 31 →
    OnesSum.fold 0xffff (sumWords sum buf) = OnesSum.fold 0xffff (sum + (words buf).sum)
  | lo :: hi :: buf, sum, h => by
    have h1 := leWord_le lo hi
    obtain ⟨h2, h3⟩ := addWord_spec sum (leWord lo hi)
    rw [sumWords, sumWords_fold buf _ h2, ← OnesSum.add_fold (by decide), h3, OnesSum.add_fold (by decide),
      Nat.mod_eq_of_lt (by omega), words, List.sum_cons, Nat.add_assoc]
  | [b], sum, h => by
    have h1 := b.toNat_lt
    rw [sumWords, htons_shift, words, List.sum_cons, List.sum_nil, leWord_zero, Nat.mod_eq_of_lt (by omega),
      Nat.add_zero]
  | [], sum, _ => by rw [sumWords, words, List.sum_nil, Nat.add_zero]

/-- what the routine computes: only the first addition drops its carry -/
theorem onesSum16_toNat (sum : UInt32) (buf : List UInt8) : (onesSum16 sum buf).toNat =
    OnesSum.fold 0xffff ((sum.toNat + (words buf).headD 0) % 2 ^ 32 + (words buf).tail.sum) := by
  have hlt := sum.toNat_lt
  have hfold := OnesSum.fold_le (m := 0xffff) (by decide)
  rw [onesSum16, UInt16.toNat_ofNat', foldSum_eq, Nat.mod_eq_of_lt (Nat.lt_succ_of_le (hfold _))]
  match buf with
  | lo :: hi :: buf =>
    obtain ⟨h2, h3⟩ := addWord_spec sum.toNat (leWord lo hi)
    rw [sumWords, sumWords_fold buf _ h2, ← OnesSum.add_fold (by decide), h3, OnesSum.add_fold (by decide)]
    rfl
  | [b] =>
    rw [sumWords, htons_shift, words, leWord_zero]
    rfl
  | [] =>
    rw [sumWords, words]
    congr 1
    exact (Nat.mod_eq_of_lt hlt).symm

theorem rfc1071Sum_eq (sum : UInt32) (buf : List UInt8) :
    rfc1071Sum sum buf = OnesSum.fold 0xffff (sum.toNat + (words buf).sum) := by
  have hlt := sum.toNat_lt
  have h1 : OnesSum.add 0xffff (sum.toNat % 65536) (sum.toNat / 65536) = OnesSum.fold 0xffff sum.toNat := by
    rw [← fold_halves, ← OnesSum.add_fold (by decide), OnesSum.fold_of_le (n := sum.toNat % 65536) (by omega),
      OnesSum.fold_of_le (n := sum.toNat / 65536) (by omega)]
  rw [rfc1071Sum, h1, OnesSum.foldl_add (by decide) _ _ (words_le buf)]

theorem sum_eq_head (l : List Nat) : l.sum = l.headD 0 + l.tail.sum := by
  cases l with
  | nil => rfl
  | cons a l => exact List.sum_cons

/-- **`ones_sum16`** loses a carry in its first addition or nowhere. -/
theorem onesSum16_eq_iff (sum : UInt32) (buf : List UInt8) :
    (onesSum16 sum buf).toNat = rfc1071Sum sum buf ↔ FirstFits sum buf := by
  have hlt := sum.toNat_lt
  have hhead : (words buf).headD 0 ≤ 0xffff := by
    cases hw : words buf with
    | nil => exact Nat.zero_le _
    | cons w ws => exact words_le buf w (by rw [hw]; exact List.mem_cons_self)
  rw [onesSum16_toNat, rfc1071Sum_eq, sum_eq_head (words buf), FirstFits, OnesSum.fold_eq_iff (by decide)]
  omega

/-! ## `rfc1701_chksum` -/

theorem totalWords_eq : ∀ (buf : List UInt8) (total : Nat), total < 2 ^ 32 →
    totalWords total buf = (total + (pairs buf).sum) % 2 ^ 32
  | lo :: hi :: buf, total, h => by
    rw [totalWords, totalWords_eq buf _ (Nat.mod_lt _ (by decide)), pairs, List.sum_cons, Nat.mod_add_mod,
      Nat.add_assoc]
  | [b], total, h => by rw [totalWords, pairs, List.sum_nil, Nat.add_zero, Nat.mod_eq_of_lt h]
  | [], total, h => by rw [totalWords, pairs, List.sum_nil, Nat.add_zero, Nat.mod_eq_of_lt h]

theorem rfc1701Chksum_toNat (buf : List UInt8) :
    (rfc1701Chksum buf).toNat = 0xffff - halves (pairs buf).sum % 65536 := by
  rw [rfc1701Chksum, UInt16.toNat_not, UInt16.toNat_ofNat', totalWords_eq buf 0 (by decide), Nat.zero_add, and_ffff,
    shiftRight_16, halves]
  change 65535 - _ % 65536 = _
  omega

/-- **`rfc1701_chksum`**, with what it leaves out. -/
theorem rfc1701Chksum_eq_iff (buf : List UInt8) :
    (rfc1701Chksum buf).toNat = 0xffff - rfc1071Sum 0 buf ↔ LossHidden buf := by
  have hle := OnesSum.fold_le (m := 0xffff) (by decide) ((pairs buf).sum + oddByte buf)
  rw [rfc1701Chksum_toNat, rfc1071Sum_eq, sum_words, show (0 : UInt32).toNat = 0 from rfl, Nat.zero_add, LossHidden]
  generalize (pairs buf).sum = t at *
  generalize oddByte buf = o at *
  have h1 : 0xffff - halves t % 65536 = 0xffff - OnesSum.fold 0xffff (t + o) ↔
      OnesSum.fold 0xffff (halves t % 65536) = OnesSum.fold 0xffff (t + o) := by
    rw [OnesSum.fold_of_le (n := halves t % 65536) (by omega)]
    omega
  rw [h1, OnesSum.fold_eq_iff (by decide)]
  have hdiv : t / 2 ^ 32 = t / 65536 / 65536 := by omega
  have hmod : t % 2 ^ 32 = 0 ↔ halves t = 0 := by
    unfold halves
    omega
  have h2 : (halves t % 65536) % 0xffff = (t + o) % 0xffff ↔ (t / 2 ^ 32 + halves t / 65536 + o) % 65535 = 0 := by
    rw [hdiv]
    unfold halves
    omega
  have h3 : halves t < 2 * 65536 := by
    unfold halves
    omega
  rw [h2, Ne, hmod]
  omega

theorem rfc1701Chksum_of_even {buf : List UInt8} (h : buf.length % 2 = 0) :
    (rfc1701Chksum buf).toNat = 0xffff - halves (words buf).sum % 65536 := by
  rw [rfc1701Chksum_toNat, sum_words, oddByte_of_even buf h, Nat.add_zero]

/-! ## IPv4 headers -/

theorem Ipv4Hdr.length_bytes (h : Ipv4Hdr) : h.bytes.length = 20 := rfl

/-- the checksum is a word of the header like the others -/
theorem Ipv4Hdr.sum_words (h : Ipv4Hdr) (c : UInt16) :
    (words { h with chksum := c }.bytes).sum = (words { h with chksum := 0 }.bytes).sum + c.toNat := by
  have hlast (x : UInt32) : words (le32 x) = words (le32 x ++ []) := by rw [List.append_nil]
  simp only [Ipv4Hdr.bytes, words_pair, words_le16, words_le32, hlast h.dstAddr, List.sum_cons]
  rw [show (0 : UInt16).toNat = 0 from rfl]
  omega

theorem halves_mul_add (k : Nat) {x : Nat} (h : x < 65536) : halves (65536 * k + x) = x + k % 65536 := by
  rw [halves, Nat.mul_add_mod, Nat.mod_eq_of_lt h, Nat.mul_add_div (by decide), Nat.div_eq_of_lt h, Nat.add_zero]

/-- a word more, the complement of what one fold leaves -/
theorem halves_complement {t : Nat} (h : t < 65535 * 65536) :
    0xffff - halves (t + (0xffff - halves t % 65536)) % 65536 = 0 ↔ halves t < 65536 := by
  have hhi : t / 65536 < 65535 := by omega
  have ht : halves t = t % 65536 + t / 65536 := by
    unfold halves
    omega
  generalize hl : t % 65536 = l at ht
  generalize hh : t / 65536 = k at ht hhi
  obtain rfl : t = 65536 * k + l := by omega
  rw [ht]
  by_cases hc : l + k < 65536
  · have h1 : halves (65536 * k + l + (0xffff - (l + k) % 65536)) = 0xffff := by
      rw [Nat.mod_eq_of_lt hc, show 65536 * k + l + (0xffff - (l + k)) = 65536 * k + (0xffff - k) by omega,
        halves_mul_add k (by omega)]
      omega
    rw [h1]
    omega
  · have h1 : halves (65536 * k + l + (0xffff - (l + k) % 65536)) = 65536 := by
      rw [show 65536 * k + l + (0xffff - (l + k) % 65536) = 65536 * (k + 1) + (0xffff - k) by omega,
        halves_mul_add (k + 1) (by omega)]
      omega
    rw [h1]
    omega

/-- **A header passes** unless the fold of its own words carries once more. -/
theorem ipv4Header_passes_iff (minipIp dst : UInt32) (proto : UInt8) (len : UInt16) (payload : List UInt8) :
    handleIpv4Check ((minipBuildIpv4Hdr minipIp dst proto len).bytes ++ payload) = true ↔
      OneFold (blankIpv4Hdr minipIp dst proto len) := by
  let hdr := minipBuildIpv4Hdr minipIp dst proto len
  let blank := blankIpv4Hdr minipIp dst proto len
  have hlen : 20 ≤ (hdr.bytes ++ payload).length := by
    rw [List.length_append, Ipv4Hdr.length_bytes]
    omega
  have hcheck : handleIpv4Check (hdr.bytes ++ payload) = decide (rfc1701Chksum hdr.bytes = 0) := by
    have hhead : (hdr.bytes ++ payload).headD 0 = 0x45 := rfl
    unfold handleIpv4Check
    dsimp only
    rw [hhead, show ((0x45 : UInt8) &&& 0xf).toNat * 4 = 20 from rfl, if_neg (by omega), if_neg (by decide),
      if_neg (by omega), List.take_left' (Ipv4Hdr.length_bytes hdr)]
  have hsum : (words hdr.bytes).sum = (words blank.bytes).sum + (rfc1701Chksum blank.bytes).toNat :=
    blank.sum_words (rfc1701Chksum blank.bytes)
  have hbound := sum_words_le blank.bytes
  have hzero : rfc1701Chksum hdr.bytes = 0 ↔ (rfc1701Chksum hdr.bytes).toNat = 0 := UInt16.toNat_inj.symm
  rw [Ipv4Hdr.length_bytes] at hbound
  rw [hcheck, decide_eq_true_iff, hzero, rfc1701Chksum_of_even (by rw [Ipv4Hdr.length_bytes]), hsum,
    rfc1701Chksum_of_even (by rw [Ipv4Hdr.length_bytes])]
  exact halves_complement (by omega)

/-! ## TCP segments -/

/-- a word more, the complement of the sum, makes the sum `0xffff` -/
theorem fold_complement {n : Nat} (h : 0 < n) :
    OnesSum.fold 0xffff (n + (0xffff - OnesSum.fold 0xffff n)) = 0xffff := by
  have h1 := OnesSum.fold_mod 0xffff n
  have h2 := OnesSum.fold_le (m := 0xffff) (by decide) n
  have h3 := OnesSum.fold_pos (m := 0xffff) h
  have h4 : OnesSum.fold 0xffff (n + (0xffff - OnesSum.fold 0xffff n)) = OnesSum.fold 0xffff 0xffff := by
    rw [OnesSum.fold_eq_iff (by decide)]
    omega
  exact h4.trans (OnesSum.fold_of_le (Nat.le_refl _))

/-- a sum that starts from a word -/
theorem cksumPheader_toNat (pheader buf : List UInt8) : (cksumPheader pheader buf).toNat =
    0xffff - OnesSum.fold 0xffff (OnesSum.fold 0xffff (words pheader).sum + (words buf).sum) := by
  have hfirst (x : UInt32) (l : List UInt8) (h : x.toNat ≤ 0xffff) : FirstFits x l := by
    have hhead : (words l).headD 0 ≤ 0xffff := by
      cases hw : words l with
      | nil => exact Nat.zero_le _
      | cons w ws => exact words_le l w (by rw [hw]; exact List.mem_cons_self)
    unfold FirstFits
    omega
  have h1 : (onesSum16 0 pheader).toUInt32.toNat = OnesSum.fold 0xffff (words pheader).sum := by
    rw [UInt16.toNat_toUInt32, (onesSum16_eq_iff 0 pheader).2 (hfirst 0 pheader (Nat.zero_le _)), rfc1071Sum_eq,
      show (0 : UInt32).toNat = 0 from rfl, Nat.zero_add]
  have h2 := OnesSum.fold_le (m := 0xffff) (by decide) (words pheader).sum
  rw [cksumPheader, UInt16.toNat_not, (onesSum16_eq_iff _ buf).2 (hfirst _ buf (by rw [h1]; exact h2)),
    rfc1071Sum_eq, h1]
  rfl

theorem TcpHeader.sum_words (h : TcpHeader) (c : UInt16) (rest : List UInt8) :
    (words ({ h with checksum := c }.bytes ++ rest)).sum =
      (words ({ h with checksum := 0 }.bytes ++ rest)).sum + c.toNat := by
  simp only [TcpHeader.bytes, List.append_assoc, words_le16, words_le32, List.sum_cons]
  rw [show (0 : UInt16).toNat = 0 from rfl]
  omega

/-- the protocol number is a word of the pseudo header -/
theorem pseudoHeader_pos (sourceAddr destAddr : UInt32) (dlen : Nat) :
    0 < (words (pseudoHeader sourceAddr destAddr dlen)).sum := by
  have h : leWord 0 IP_PROTO_TCP = 1536 := rfl
  simp only [pseudoHeader, words_pair, words_le32, List.sum_cons, h]
  omega

/-- a header with the checksum of the packet in it -/
theorem TcpHeader.filled_passes (h : TcpHeader) (h0 : h.checksum = 0) (srcIp destIp : UInt32) (rest : List UInt8) :
    let c := cksumPheader (pseudoHeader srcIp destIp (h.bytes ++ rest).length) (h.bytes ++ rest)
    tcpInputCheck srcIp destIp ({ h with checksum := c }.bytes ++ rest) = true := by
  let pheader := pseudoHeader srcIp destIp (h.bytes ++ rest).length
  intro c
  have hpos := OnesSum.fold_pos (m := 0xffff) (pseudoHeader_pos srcIp destIp (h.bytes ++ rest).length)
  have hh : { h with checksum := 0 } = h := by rw [← h0]
  have hsum : (words ({ h with checksum := c }.bytes ++ rest)).sum = (words (h.bytes ++ rest)).sum + c.toNat := by
    rw [h.sum_words c rest, hh]
  have hzero : (cksumPheader pheader ({ h with checksum := c }.bytes ++ rest)).toNat = 0 := by
    rw [cksumPheader_toNat, hsum, show c.toNat = _ from cksumPheader_toNat pheader (h.bytes ++ rest),
      ← Nat.add_assoc, fold_complement (Nat.add_pos_left hpos _)]
  exact decide_eq_true (UInt16.toNat_inj.1 hzero)

/-- **Every segment passes.** -/
theorem tcpSegment_passes (destIp : UInt32) (destPort : UInt16) (srcIp : UInt32) (srcPort : UInt16)
    (buf : List UInt8) (flags : UInt16) (options : List UInt8) (ack sequence : UInt32) (windowSize : UInt16) :
    tcpInputCheck srcIp destIp
      (tcpSend destIp destPort srcIp srcPort buf flags options ack sequence windowSize) = true := by
  have h := TcpHeader.filled_passes (fillHeader destPort srcPort flags options.length ack sequence windowSize) rfl
    srcIp destIp (options ++ buf)
  rwa [tcpSend]

/-! ## the checksums -/

/-- **Checksums of RFC 1071.**  `ones_sum16` computes the sum if and only if its first addition fits 32 bits,
`rfc1701_chksum` the complement if and only if what it leaves out does not show; a header passes the check of the
receiver if and only if one fold is enough for it, and every segment passes. -/
theorem checksums_rfc1071_iff (sum : UInt32) (buf : List UInt8) (minipIp dst : UInt32) (proto : UInt8) (len : UInt16)
    (payload : List UInt8) (destIp : UInt32) (destPort : UInt16) (srcIp : UInt32) (srcPort : UInt16)
    (text : List UInt8) (flags : UInt16) (options : List UInt8) (ack sequence : UInt32) (windowSize : UInt16) :
    ((onesSum16 sum buf).toNat = rfc1071Sum sum buf ↔ FirstFits sum buf) ∧
      ((rfc1701Chksum buf).toNat = 0xffff - rfc1071Sum 0 buf ↔ LossHidden buf) ∧
      (handleIpv4Check ((minipBuildIpv4Hdr minipIp dst proto len).bytes ++ payload) = true ↔
        OneFold (blankIpv4Hdr minipIp dst proto len)) ∧
      tcpInputCheck srcIp destIp
        (tcpSend destIp destPort srcIp srcPort text flags options ack sequence windowSize) = true :=
  ⟨onesSum16_eq_iff sum buf, rfc1701Chksum_eq_iff buf, ipv4Header_passes_iff minipIp dst proto len payload,
    tcpSegment_passes destIp destPort srcIp srcPort text flags options ack sequence windowSize⟩

/-- a byte on top of the largest sum, a byte alone, and the header of a TCP packet from 192.168.0.98 to 10.0.112.198 -/
theorem checksums_rfc1071_fails :
    (onesSum16 0xffffffff [1]).toNat ≠ rfc1071Sum 0xffffffff [1] ∧
      (rfc1701Chksum [1]).toNat ≠ 0xffff - rfc1071Sum 0 [1] ∧
      handleIpv4Check ((minipBuildIpv4Hdr 0x6200a8c0 0xc670000a 6 20).bytes ++ List.replicate 20 0) ≠ true := by
  refine ⟨?_, ?_, ?_⟩
  · rw [Ne, onesSum16_eq_iff]
    decide
  · rw [Ne, rfc1701Chksum_eq_iff]
    decide
  · rw [Ne, ipv4Header_passes_iff]
    decide

end LkHv.Net.Checksum
