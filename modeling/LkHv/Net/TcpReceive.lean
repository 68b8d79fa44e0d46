import LkHv.Net.TcpSend
import Mathlib.Algebra.GroupWithZero.Nat

/-!
# What a TCP connection receives

`irs` is the sequence number of the first byte that the peer sends.

* `TcpHistory`       a connection, and the segments it was given;
* `TcpReceived`      what was read and is still to be read is the stream up to `rx_win_low`;
* `FinAfterData`     a FIN is acted on behind the last byte before it;
* `RxClean`          the condition;
* `RxQuiet`          what leaves the receive half alone, but for the right edge of its window;
* `RxOk`             the invariant;
* `tcp_receives`     under it a connection receives the stream;
* `tcp_receives_fails`  not so when a segment begins before `rx_win_low`.
-/

namespace LkHv.Net.Tcp

/-- a connection, and the segments it was given -/
structure TcpHistory where
  socket : TcpSocket
  received : List TcpPacket

/-- the segments, with that of the step -/
def receivedAfter (received : List TcpPacket) : TcpOp → List TcpPacket
  | .input p => received ++ [p]
  | _ => received

def historyStep (h : TcpHistory) (op : TcpOp) : Option TcpHistory :=
  (tcpStep h.socket op).map fun s => ⟨s, receivedAfter h.received op⟩

/-- the connections that answer a SYN -/
def historySys (rand seq : BitVec 32) : Machine TcpHistory TcpOp :=
  .ofFun (fun h => (∃ rxMem txMem, h.socket = acceptSocket rand seq rxMem txMem) ∧ h.received = []) historyStep

/-- one of the segments carries the byte under the sequence number that is `i` behind `irs` -/
def CarriedBy (irs : BitVec 32) (received : List TcpPacket) (i : Nat) (b : UInt8) : Prop :=
  ∃ p ∈ received, ∃ j < p.len, p.seqNum + BitVec.ofNat 32 j = irs + BitVec.ofNat 32 i ∧ p.data j = b

/-- `bytes` wait in the receive buffer: with those that were read they are the stream up to `rx_win_low` -/
structure Buffered (irs : BitVec 32) (h : TcpHistory) (bytes : List UInt8) : Prop where
  rep : h.socket.rxBuffer.Rep ⟨DEFAULT_RX_WINDOW_SIZE - 1, bytes⟩
  /-- the FIN took a sequence number -/
  low : h.socket.rxWinLow = irs + BitVec.ofNat 32 (h.socket.given ++ bytes).length + if h.socket.finSeen then 1 else 0
  carried : ∀ i b, (h.socket.given ++ bytes)[i]? = some b → CarriedBy irs h.received i b
  /-- no byte that was copied did not fit -/
  stored : (h.socket.copies.map TcpCopy.copyLen).sum = (h.socket.given ++ bytes).length

/-- **The stream.** -/
structure TcpReceived (irs : BitVec 32) (h : TcpHistory) : Prop where
  stream : ∃ bytes, Buffered irs h bytes
  inside : ∀ c ∈ h.socket.copies, c.offset + c.copyLen ≤ c.len

/-- the step acts on a FIN only if `rx_win_low` is behind the last byte of its segment -/
def FinAfterData (s : TcpSocket) : TcpOp → TcpSocket → Prop
  | .input p, s' => s.finSeen = false → s'.finSeen = true →
      sequenceGte (s'.rxWinLow - 1) (p.seqNum + BitVec.ofNat 32 p.len)
  | _, _ => True

/-- the test of `handle_data` -/
def Accepts (s : TcpSocket) (p : TcpPacket) : Prop :=
  sequenceLte p.seqNum s.rxWinLow ∧ sequenceGte (p.seqNum + BitVec.ofNat 32 p.len - 1) s.rxWinLow

instance (s : TcpSocket) (p : TcpPacket) : Decidable (Accepts s p) := inferInstanceAs (Decidable (_ ∧ _))

/-- Segments are as long as IPv4 lets them be.  One that is accepted begins at `rx_win_low`, a FIN does not come with
data that is one byte longer than the window, and behind `tcp_close` none comes before its data. -/
def RxClean (s : TcpSocket) : TcpOp → Prop
  | .input p => p.len < 2 ^ 16 ∧ (p.flags &&& PKT_RST = 0 →
      (s.state = .established → 0 < p.len → Accepts s p → p.seqNum = s.rxWinLow ∧
        (p.flags &&& PKT_FIN ≠ 0 → (s.rxWinHigh - s.rxWinLow).toNat + 1 ≠ p.len)) ∧
      (s.state = .finWait1 ∨ s.state = .finWait2 → p.flags &&& PKT_FIN ≠ 0 →
        sequenceGte s.rxWinLow (p.seqNum + BitVec.ofNat 32 p.len)))
  | _ => True

/-! ## what leaves the receive half alone -/

/-- the receive half is as it was, but that the right edge of the window may be set as far as the buffer is free -/
structure RxQuiet (s s' : TcpSocket) : Prop where
  size : s'.rxWinSize = s.rxWinSize
  low : s'.rxWinLow = s.rxWinLow
  buffer : s'.rxBuffer = s.rxBuffer
  given : s'.given = s.given
  copies : s'.copies = s.copies
  fin : s'.finSeen = s.finSeen
  high : s'.rxWinHigh = s.rxWinHigh ∨
    s'.rxWinHigh = s.rxWinLow + BitVec.ofNat 32 s.rxWinSize - BitVec.ofNat 32 s.rxBuffer.cbufSpaceUsed - 1

section
variable {s s' s'' : TcpSocket} {irs rand seq : BitVec 32} {p : TcpPacket} {bytes : List UInt8}

theorem RxQuiet.of_eq (h : s'.rxWinSize = s.rxWinSize ∧ s'.rxWinLow = s.rxWinLow ∧ s'.rxBuffer = s.rxBuffer ∧
    s'.given = s.given ∧ s'.copies = s.copies ∧ s'.finSeen = s.finSeen ∧ s'.rxWinHigh = s.rxWinHigh) :
    RxQuiet s s' := by
  obtain ⟨h1, h2, h3, h4, h5, h6, h7⟩ := h
  exact ⟨h1, h2, h3, h4, h5, h6, .inl h7⟩

theorem RxQuiet.refl (s : TcpSocket) : RxQuiet s s := .of_eq ⟨rfl, rfl, rfl, rfl, rfl, rfl, rfl⟩

theorem RxQuiet.trans (h : RxQuiet s s') (h' : RxQuiet s' s'') : RxQuiet s s'' := by
  refine ⟨h'.size.trans h.size, h'.low.trans h.low, h'.buffer.trans h.buffer, h'.given.trans h.given,
    h'.copies.trans h.copies, h'.fin.trans h.fin, ?_⟩
  obtain e | e := h'.high
  · rw [e]
    exact h.high
  · rw [e, h.low, h.size, h.buffer]
    exact .inr rfl

/-- the same, after a change of other fields -/
theorem RxQuiet.before (h : RxQuiet s' s'') (h' : s'.rxWinSize = s.rxWinSize ∧ s'.rxWinLow = s.rxWinLow ∧
    s'.rxBuffer = s.rxBuffer ∧ s'.given = s.given ∧ s'.copies = s.copies ∧ s'.finSeen = s.finSeen ∧
    s'.rxWinHigh = s.rxWinHigh) : RxQuiet s s'' :=
  (RxQuiet.of_eq h').trans h

theorem tcpSocketSend_rx (s : TcpSocket) (data : List UInt8) (flags : Nat) (sequence : BitVec 32) :
    RxQuiet s (tcpSocketSend s data flags sequence) := by
  unfold tcpSocketSend tcpSend tcpTimerCancel
  dsimp only
  split <;> split
  · exact ⟨rfl, rfl, rfl, rfl, rfl, rfl, .inr rfl⟩
  · exact .of_eq ⟨rfl, rfl, rfl, rfl, rfl, rfl, rfl⟩
  · exact ⟨rfl, rfl, rfl, rfl, rfl, rfl, .inr rfl⟩
  · exact .of_eq ⟨rfl, rfl, rfl, rfl, rfl, rfl, rfl⟩

theorem sendAck_rx (s : TcpSocket) : RxQuiet s (sendAck s) := by
  unfold sendAck
  split
  · exact .refl s
  · exact tcpSocketSend_rx s [] PKT_ACK s.txWinLow

theorem sendReset_rx (s : TcpSocket) (p : TcpPacket) : RxQuiet s (sendReset s p) := by
  unfold sendReset
  split
  · exact .of_eq ⟨rfl, rfl, rfl, rfl, rfl, rfl, rfl⟩
  · exact .refl s

theorem ackData_rx (s : TcpSocket) : RxQuiet s (ackData s) := by
  unfold ackData
  split
  · exact (sendAck_rx s).trans (.of_eq ⟨rfl, rfl, rfl, rfl, rfl, rfl, rfl⟩)
  · exact .of_eq ⟨rfl, rfl, rfl, rfl, rfl, rfl, rfl⟩

theorem handleAck_rx (s : TcpSocket) (sequence : BitVec 32) (winSize : Nat) :
    RxQuiet s (handleAck s sequence winSize) := by
  unfold handleAck
  split
  · exact .refl s
  · split
    · exact .refl s
    · dsimp only
      split <;> exact .of_eq ⟨rfl, rfl, rfl, rfl, rfl, rfl, rfl⟩

theorem handleAck_high (s : TcpSocket) (sequence : BitVec 32) (winSize : Nat) :
    (handleAck s sequence winSize).rxWinHigh = s.rxWinHigh := by
  unfold handleAck
  split
  · rfl
  · split
    · rfl
    · dsimp only
      split <;> rfl

theorem tcpRemoteClose_rx (s : TcpSocket) : RxQuiet s (tcpRemoteClose s) := by
  unfold tcpRemoteClose
  split
  · exact .refl s
  · exact .of_eq ⟨rfl, rfl, rfl, rfl, rfl, rfl, rfl⟩

theorem pendingLoop_rx {outstanding pending : Nat} (fuel : Nat) : ∀ {s : TcpSocket} {offset : Nat}
    {r : TcpSocket × Nat}, pendingLoop outstanding pending fuel s offset = some r →
    RxQuiet s r.1 ∧ r.1.state = s.state := by
  induction fuel with
  | zero =>
    intro s offset r h
    rw [pendingLoop] at h
    split at h
    · cases h
    · cases h
      exact ⟨.refl s, rfl⟩
  | succ fuel ih =>
    intro s offset r h
    rw [pendingLoop] at h
    split at h
    · obtain ⟨hq, hst⟩ := ih h
      obtain ⟨-, -, -, -, -, -, hstate, -⟩ := tcpSocketSend_eq s
        (Ring.slice s.txBuffer (outstanding + offset) (min s.mss (pending - offset))) (PKT_ACK ||| PKT_PSH)
        s.txHighestSeq
      have hsend := tcpSocketSend_rx s
        (Ring.slice s.txBuffer (outstanding + offset) (min s.mss (pending - offset))) (PKT_ACK ||| PKT_PSH)
        s.txHighestSeq
      refine ⟨hsend.trans (RxQuiet.trans ?_ hq), hst.trans hstate⟩
      exact .of_eq ⟨rfl, rfl, rfl, rfl, rfl, rfl, rfl⟩
    · cases h
      exact ⟨.refl s, rfl⟩

theorem tcpWritePendingData_rx (h : tcpWritePendingData s = some s') : RxQuiet s s' ∧ s'.state = s.state := by
  unfold tcpWritePendingData at h
  obtain ⟨r, hr, rfl⟩ := Option.map_eq_some_iff.mp h
  obtain ⟨hq, hst⟩ := pendingLoop_rx _ hr
  dsimp only
  split
  · exact ⟨hq.trans (.of_eq ⟨rfl, rfl, rfl, rfl, rfl, rfl, rfl⟩), hst⟩
  · exact ⟨hq, hst⟩

theorem tcpWrite_rx {buf : List UInt8} (h : tcpWrite s buf = some s') : RxQuiet s s' ∧ s'.state = s.state := by
  unfold tcpWrite at h
  split at h
  · cases h
    exact ⟨.refl s, rfl⟩
  · dsimp only at h
    split at h
    · cases h
      exact ⟨.refl s, rfl⟩
    · obtain ⟨hq, hst⟩ := tcpWritePendingData_rx h
      split at hq
      · rw [if_pos ‹_›] at hst
        exact ⟨hq.before ⟨rfl, rfl, rfl, rfl, rfl, rfl, rfl⟩, hst⟩
      · rw [if_neg ‹_›] at hst
        exact ⟨hq.before ⟨rfl, rfl, rfl, rfl, rfl, rfl, rfl⟩, hst⟩

theorem tcpRetransmit_rx (s : TcpSocket) : RxQuiet s (tcpRetransmit s).1 ∧ (tcpRetransmit s).1.state = s.state := by
  unfold tcpRetransmit
  split
  · exact ⟨.refl s, rfl⟩
  · dsimp only
    split
    · exact ⟨.refl s, rfl⟩
    · obtain ⟨-, -, -, -, -, -, hstate, -⟩ := tcpSocketSend_eq s
        (Ring.slice s.txBuffer 0 (min s.mss (s.txHighestSeq - s.txWinLow).toNat)) (PKT_ACK ||| PKT_PSH) s.txWinLow
      exact ⟨tcpSocketSend_rx s _ _ _, hstate⟩

theorem tcpTimeout_rx (s : TcpSocket) (t : TcpTimer) :
    RxQuiet s (tcpTimeout s t) ∧ (tcpTimeout s t).state = s.state := by
  cases t with
  | retransmit =>
    obtain ⟨hq, hst⟩ := tcpRetransmit_rx (tcpTimerCancel s .retransmit)
    unfold tcpTimeout
    dsimp only
    split
    · exact ⟨hq.before ⟨rfl, rfl, rfl, rfl, rfl, rfl, rfl⟩, hst⟩
    · have hq := hq.before (s := s) ⟨rfl, rfl, rfl, rfl, rfl, rfl, rfl⟩
      exact ⟨hq.trans (.of_eq ⟨rfl, rfl, rfl, rfl, rfl, rfl, rfl⟩), hst⟩
  | ackDelay =>
    have hq := sendAck_rx (tcpTimerCancel s .ackDelay)
    exact ⟨hq.before ⟨rfl, rfl, rfl, rfl, rfl, rfl, rfl⟩, sendAck_state _⟩
  | timeWait => exact ⟨.of_eq ⟨rfl, rfl, rfl, rfl, rfl, rfl, rfl⟩, rfl⟩

theorem sendFin_rx (s : TcpSocket) : RxQuiet s (sendFin s) ∧ (sendFin s).state = s.state := by
  obtain ⟨-, -, -, -, -, -, hstate, -⟩ := tcpSocketSend_eq s [] (PKT_ACK ||| PKT_FIN) s.txWinLow
  have hsend := tcpSocketSend_rx s [] (PKT_ACK ||| PKT_FIN) s.txWinLow
  exact ⟨hsend.trans (.of_eq ⟨rfl, rfl, rfl, rfl, rfl, rfl, rfl⟩), hstate⟩

/-! ## sequence numbers -/

theorem sequenceGte_iff (a b : BitVec 32) : sequenceGte a b ↔ (a - b).toNat < 2 ^ 31 := by
  unfold sequenceGte
  rw [BitVec.toInt_eq_toNat_cond]
  split <;> omega

theorem sequenceLte_iff (a b : BitVec 32) : sequenceLte a b ↔ (a - b).toNat = 0 ∨ 2 ^ 31 ≤ (a - b).toNat := by
  unfold sequenceLte
  rw [BitVec.toInt_eq_toNat_cond]
  split <;> omega

/-- of two numbers less than half a window from `low`, the smaller one does not pass the test -/
theorem not_gte_of_lt (low : BitVec 32) {a b : BitVec 32} (hlt : b.toNat < a.toNat) (ha : a.toNat < 2 ^ 31) :
    ¬ (low + b - (low + a)).toNat < 2 ^ 31 := by
  have hdiff : low + b - (low + a) = b - a := by
    apply BitVec.eq_of_toNat_eq
    simp only [BitVec.toNat_sub, BitVec.toNat_add]
    omega
  rw [hdiff, BitVec.toNat_sub]
  omega

/-- `rx_win_low` is behind a segment that was not accepted and does not end behind it -/
theorem behind_of_not_accepts (hlen : p.len < 2 ^ 16) (hpos : 0 < p.len) (hno : ¬ Accepts s p)
    (hge : sequenceGte s.rxWinLow (p.seqNum + BitVec.ofNat 32 (p.len - 1))) :
    sequenceGte s.rxWinLow (p.seqNum + BitVec.ofNat 32 p.len) := by
  unfold Accepts at hno
  rw [sequenceLte_iff, sequenceGte_iff] at hno
  rw [sequenceGte_iff] at hge ⊢
  obtain ⟨n, hn⟩ := Nat.exists_eq_add_of_lt hpos
  have hadd : BitVec.ofNat 32 p.len = BitVec.ofNat 32 n + 1 := by
    rw [hn, Nat.zero_add, BitVec.ofNat_add]
    rfl
  rw [show p.len - 1 = n by omega] at hge
  rw [hadd] at hno ⊢
  have hsmall : (BitVec.ofNat 32 n).toNat < 2 ^ 16 := by
    rw [BitVec.toNat_ofNat, Nat.mod_eq_of_lt (by omega)]
    omega
  generalize BitVec.ofNat 32 n = m at hno hge hsmall ⊢
  generalize s.rxWinLow = low at hno hge ⊢
  generalize p.seqNum = seq at hno hge ⊢
  bv_omega

/-! ## the invariant -/

/-- the states in which no FIN was acted on -/
def FinOpen (st : TcpState) : Prop := st = .synRcvd ∨ st = .established ∨ st = .finWait1 ∨ st = .finWait2

/-- the states that lead to data, and the one that takes it -/
def DataOpen (st : TcpState) : Prop := st = .synRcvd ∨ st = .established

instance (st : TcpState) : Decidable (FinOpen st) := inferInstanceAs (Decidable (_ ∨ _))

instance (st : TcpState) : Decidable (DataOpen st) := inferInstanceAs (Decidable (_ ∨ _))

structure RxOk (irs : BitVec 32) (h : TcpHistory) (bytes : List UInt8) : Prop extends Buffered irs h bytes where
  inside : ∀ c ∈ h.socket.copies, c.offset + c.copyLen ≤ c.len
  size : h.socket.rxWinSize = DEFAULT_RX_WINDOW_SIZE
  window : DataOpen h.socket.state →
    (h.socket.rxWinHigh - h.socket.rxWinLow).toNat + bytes.length ≤ DEFAULT_RX_WINDOW_SIZE - 1
  fin : FinOpen h.socket.state → h.socket.finSeen = false

variable {rcv rcv' : List TcpPacket}

theorem RxOk.length_le {h : TcpHistory} (hr : RxOk irs h bytes) : bytes.length ≤ DEFAULT_RX_WINDOW_SIZE - 1 := by
  have hfits := hr.rep.holds.fits
  have hcap := hr.rep.cap
  dsimp only at hfits hcap
  omega

/-- the receive half is left alone, and no state comes that lets in more -/
theorem RxOk.quiet (h : RxOk irs ⟨s, rcv⟩ bytes) (q : RxQuiet s s') (hdata : DataOpen s'.state → DataOpen s.state)
    (hfin : FinOpen s'.state → FinOpen s.state) (hrcv : ∀ p ∈ rcv, p ∈ rcv') : RxOk irs ⟨s', rcv'⟩ bytes := by
  have hlen := h.length_le
  obtain ⟨⟨hrep, hlow, hcarried, hstored⟩, hinside, hsize, hwindow, hseen⟩ := h
  dsimp only at hrep hlow hcarried hstored hinside hsize hwindow hseen
  refine ⟨⟨?_, ?_, ?_, ?_⟩, ?_, q.size.trans hsize, fun hs => ?_, fun hs => ?_⟩ <;> dsimp only
  · rw [q.buffer]
    exact hrep
  · rw [q.low, q.given, q.fin]
    exact hlow
  · rw [q.given]
    intro i b hb
    obtain ⟨p, hp, hj⟩ := hcarried i b hb
    exact ⟨p, hrcv p hp, hj⟩
  · rw [q.copies, q.given]
    exact hstored
  · rw [q.copies]
    exact hinside
  · rw [q.low]
    obtain e | e := q.high
    · rw [e]
      exact hwindow (hdata hs)
    · -- the window is what the buffer has left
      rw [e, hsize, hrep.holds.used]
      unfold DEFAULT_RX_WINDOW_SIZE at hlen ⊢
      dsimp only
      generalize s.rxWinLow = low
      have hsub : low + BitVec.ofNat 32 8192 - BitVec.ofNat 32 bytes.length - 1 - low =
          BitVec.ofNat 32 8191 - BitVec.ofNat 32 bytes.length := by bv_omega
      rw [hsub, Serial.sub_ofNat (by omega) (by omega)]
      omega
  · rw [q.fin]
    exact hseen (hfin hs)

theorem RxOk.same (h : RxOk irs ⟨s, rcv⟩ bytes) (q : RxQuiet s s') (hst : s'.state = s.state)
    (hrcv : ∀ p ∈ rcv, p ∈ rcv') : RxOk irs ⟨s', rcv'⟩ bytes :=
  h.quiet q (fun hs => hst ▸ hs) (fun hs => hst ▸ hs) hrcv

theorem tcpClose_rx (s : TcpSocket) : RxQuiet s (tcpClose s) := by
  have hfin : ∀ st, RxQuiet s (wakeup (sendFin { s with state := st })) := by
    intro st
    have hq := (sendFin_rx { s with state := st }).1.before (s := s) ⟨rfl, rfl, rfl, rfl, rfl, rfl, rfl⟩
    exact hq.trans (.of_eq ⟨rfl, rfl, rfl, rfl, rfl, rfl, rfl⟩)
  unfold tcpClose
  split
  · exact .of_eq ⟨rfl, rfl, rfl, rfl, rfl, rfl, rfl⟩
  · exact .of_eq ⟨rfl, rfl, rfl, rfl, rfl, rfl, rfl⟩
  · exact hfin .finWait1
  · exact hfin .finWait1
  · exact hfin .lastAck
  · exact .refl s

/-- a socket that closes takes no more data, and is as open for a FIN as before -/
theorem tcpClose_open (s : TcpSocket) :
    ¬ DataOpen (tcpClose s).state ∧ (FinOpen (tcpClose s).state → FinOpen s.state) := by
  have hfin : ∀ st, (wakeup (sendFin { s with state := st })).state = st := fun st =>
    (sendFin_rx { s with state := st }).2
  unfold tcpClose
  split
  · rename_i hs
    show ¬ DataOpen s.state ∧ (FinOpen s.state → FinOpen s.state)
    rw [hs]
    decide
  · show ¬ DataOpen .closed ∧ (FinOpen .closed → FinOpen s.state)
    exact ⟨by decide, fun h => absurd h (by decide)⟩
  · rename_i hs
    rw [hfin, hs]
    decide
  · rename_i hs
    rw [hfin, hs]
    decide
  · rw [hfin]
    exact ⟨by decide, fun h => absurd h (by decide)⟩
  · rename_i hsyn hest _
    exact ⟨fun hd => hd.elim hsyn hest, id⟩

/-! ## data -/

theorem storeData_low (s : TcpSocket) (p : TcpPacket) (offset copyLen : Nat) :
    (storeData s p offset copyLen).rxWinLow = s.rxWinLow + BitVec.ofNat 32 copyLen := rfl

/-- **Bytes stored** from the start of a segment that begins at `rx_win_low` -/
theorem storeData_ok (h : RxOk irs ⟨s, rcv⟩ bytes) (hst : s.state = .established) (hp : p ∈ rcv)
    (hlow : p.seqNum = s.rxWinLow) {n : Nat} (hn : n ≤ p.len) (hw : n ≤ (s.rxWinHigh - s.rxWinLow).toNat) :
    RxOk irs ⟨storeData s p 0 n, rcv⟩ (bytes ++ Ring.slice p.data 0 n) := by
  obtain ⟨⟨hrep, hirs, hcarried, hstored⟩, hinside, hsize, hwindow, hseen⟩ := h
  dsimp only at hrep hirs hcarried hstored hinside hsize hwindow hseen
  have hwin := hwindow (.inr hst)
  have hnofin := hseen (.inr (.inl hst))
  have hlen : (Ring.slice p.data 0 n).length = n := Ring.slice_length _ _ _
  have htotal : (s.given ++ (bytes ++ Ring.slice p.data 0 n)).length = (s.given ++ bytes).length + n := by
    rw [← List.append_assoc, List.length_append, hlen]
  have hlowAt : s.rxWinLow = irs + BitVec.ofNat 32 (s.given ++ bytes).length := by
    rw [hirs, hnofin]
    exact BitVec.add_zero _
  have hdata : (fun i => p.data (0 + i)) = p.data := by
    funext i
    rw [Nat.zero_add]
  refine ⟨⟨?_, ?_, ?_, ?_⟩, ?_, hsize, fun _ => ?_, fun _ => hnofin⟩ <;> unfold storeData <;> dsimp only
  · obtain ⟨-, hwrite⟩ := hrep.write (some fun i => p.data (0 + i)) n
    rw [hdata] at hwrite ⊢
    have hfit : (Ring.slice p.data 0 n).take (DEFAULT_RX_WINDOW_SIZE - 1 - bytes.length) = Ring.slice p.data 0 n :=
      List.take_of_length_le (by omega)
    unfold ByteQueue.push at hwrite
    dsimp only [Option.getD_some] at hwrite
    rw [hfit] at hwrite
    exact hwrite
  · rw [hlowAt, hnofin, htotal, seq_add]
    exact (BitVec.add_zero _).symm
  · intro i b hb
    rw [← List.append_assoc] at hb
    by_cases hi : i < (s.given ++ bytes).length
    · rw [List.getElem?_append_left hi] at hb
      exact hcarried i b hb
    · rw [List.getElem?_append_right (by omega)] at hb
      obtain ⟨hj, hb⟩ := List.getElem?_eq_some_iff.mp hb
      rw [hlen] at hj
      refine ⟨p, hp, i - (s.given ++ bytes).length, by omega, ?_, ?_⟩
      · rw [hlow, hlowAt, seq_add, Nat.add_sub_cancel' (by omega)]
      · simpa [Ring.slice] using hb
  · rw [List.map_append, List.sum_append, hstored, htotal]
    rfl
  · intro c hc
    obtain hc | hc := List.mem_append.mp hc
    · exact hinside c hc
    · rw [List.mem_singleton.mp hc]
      dsimp only
      omega
  · rw [List.length_append, hlen]
    have hsub : (s.rxWinHigh - (s.rxWinLow + BitVec.ofNat 32 n)).toNat = (s.rxWinHigh - s.rxWinLow).toNat - n := by
      unfold DEFAULT_RX_WINDOW_SIZE at hwin
      have hof : (BitVec.ofNat 32 n).toNat = n := by
        rw [BitVec.toNat_ofNat, Nat.mod_eq_of_lt (by omega)]
      generalize s.rxWinHigh = high at hw ⊢
      generalize s.rxWinLow = low at hw ⊢
      generalize BitVec.ofNat 32 n = m at hof ⊢
      bv_omega
    rw [hsub]
    omega

/-- what `handle_data` does with a segment that begins at `rx_win_low` -/
theorem handleData_accepts (hlen : p.len < 2 ^ 16) (h : Accepts s p) (hlow : p.seqNum = s.rxWinLow) :
    handleData s p = ackData (storeData s p 0 (min (s.rxWinHigh - s.rxWinLow).toNat p.len)) := by
  have hoffset : (p.seqNum - s.rxWinLow).toNat = 0 := by
    rw [hlow, BitVec.sub_self]
    rfl
  have hsub : sub64 p.len 0 = p.len := by
    unfold sub64
    omega
  have htakes : handleData s p = ackData (storeData s p (p.seqNum - s.rxWinLow).toNat
      (min (s.rxWinHigh - s.rxWinLow).toNat (sub64 p.len (p.seqNum - s.rxWinLow).toNat))) := if_pos h
  rw [htakes, hoffset, hsub]

theorem handleData_drops (h : ¬ Accepts s p) : handleData s p = sendAck s := if_neg h

theorem handleData_ok (h : RxOk irs ⟨s, rcv⟩ bytes) (hst : s.state = .established) (hp : p ∈ rcv)
    (hlen : p.len < 2 ^ 16) (hlow : Accepts s p → p.seqNum = s.rxWinLow) :
    ∃ bytes', RxOk irs ⟨handleData s p, rcv⟩ bytes' := by
  by_cases ha : Accepts s p
  · rw [handleData_accepts hlen ha (hlow ha)]
    have hstore := storeData_ok h hst hp (hlow ha) (Nat.min_le_right (s.rxWinHigh - s.rxWinLow).toNat p.len)
      (Nat.min_le_left _ _)
    exact ⟨_, hstore.same (ackData_rx _) (ackData_state _) fun _ hq => hq⟩
  · rw [handleData_drops ha]
    exact ⟨bytes, h.same (sendAck_rx s) (sendAck_state s) fun _ hq => hq⟩

/-- a FIN with data that passes the test is behind all of it -/
theorem handleData_fin (hlen : p.len < 2 ^ 16) (hpos : 0 < p.len)
    (hlow : Accepts s p → p.seqNum = s.rxWinLow ∧ (s.rxWinHigh - s.rxWinLow).toNat + 1 ≠ p.len)
    (hge : sequenceGte (handleData s p).rxWinLow (p.seqNum + BitVec.ofNat 32 (p.len - 1))) :
    sequenceGte (handleData s p).rxWinLow (p.seqNum + BitVec.ofNat 32 p.len) := by
  by_cases ha : Accepts s p
  · obtain ⟨hseq, hwin⟩ := hlow ha
    rw [handleData_accepts hlen ha hseq, (ackData_rx _).low, storeData_low, hseq, sequenceGte_iff] at hge ⊢
    obtain he | he := (Nat.lt_or_ge (s.rxWinHigh - s.rxWinLow).toNat p.len).symm
    · rw [Nat.min_eq_right he, BitVec.sub_self]
      exact Nat.two_pow_pos 31
    · -- two bytes or more did not fit
      rw [Nat.min_eq_left he.le] at hge
      have hn : (BitVec.ofNat 32 (p.len - 1)).toNat = p.len - 1 := by
        rw [BitVec.toNat_ofNat, Nat.mod_eq_of_lt (by omega)]
      have hw : (BitVec.ofNat 32 (s.rxWinHigh - s.rxWinLow).toNat).toNat = (s.rxWinHigh - s.rxWinLow).toNat := by
        rw [BitVec.toNat_ofNat, Nat.mod_eq_of_lt (by omega)]
      have hbehind := not_gte_of_lt s.rxWinLow (a := BitVec.ofNat 32 (p.len - 1))
        (b := BitVec.ofNat 32 (s.rxWinHigh - s.rxWinLow).toNat) (by omega) (by omega)
      exact absurd hge hbehind
  · rw [handleData_drops ha, (sendAck_rx s).low] at hge ⊢
    exact behind_of_not_accepts hlen hpos ha hge

/-! ## segments -/

/-- what a segment leaves: the invariant, and a FIN behind its data -/
def Taken (irs : BitVec 32) (rcv : List TcpPacket) (s : TcpSocket) (p : TcpPacket) (s' : TcpSocket) : Prop :=
  (∃ bytes, RxOk irs ⟨s', rcv⟩ bytes) ∧ FinAfterData s (.input p) s'

theorem Taken.quiet (h : RxOk irs ⟨s, rcv⟩ bytes) (q : RxQuiet s s') (hdata : DataOpen s'.state → DataOpen s.state)
    (hfin : FinOpen s'.state → FinOpen s.state) (hrcv : ∀ p ∈ rcv, p ∈ rcv') : Taken irs rcv' s p s' := by
  refine ⟨⟨bytes, h.quiet q hdata hfin hrcv⟩, fun hno hyes => ?_⟩
  rw [q.fin, hno] at hyes
  cases hyes

theorem Taken.same (h : RxOk irs ⟨s, rcv⟩ bytes) (q : RxQuiet s s') (hst : s'.state = s.state)
    (hrcv : ∀ p ∈ rcv, p ∈ rcv') : Taken irs rcv' s p s' :=
  .quiet h q (fun hs => hst ▸ hs) (fun hs => hst ▸ hs) hrcv

theorem takeFin_low (s : TcpSocket) : (takeFin s).rxWinLow = s.rxWinLow + 1 :=
  (sendAck_rx { s with rxWinLow := s.rxWinLow + 1, finSeen := true }).low

/-- **The FIN is acted on**, and the connection goes to a state in which none is awaited. -/
theorem Taken.fin (h : RxOk irs ⟨s, rcv⟩ bytes) (hopen : FinOpen s.state) (st : TcpState)
    (hst : ¬ DataOpen st ∧ ¬ FinOpen st) (hge : sequenceGte s.rxWinLow (p.seqNum + BitVec.ofNat 32 p.len))
    (q : RxQuiet { takeFin s with state := st } s') (hst' : s'.state = st) (s₀ : TcpSocket) :
    Taken irs rcv s₀ p s' := by
  have hack := sendAck_rx { s with rxWinLow := s.rxWinLow + 1, finSeen := true }
  have hfin : RxQuiet { s with rxWinLow := s.rxWinLow + 1, finSeen := true, state := st }
      { takeFin s with state := st } :=
    ⟨hack.size, hack.low, hack.buffer, hack.given, hack.copies, hack.fin, hack.high⟩
  have hno := h.fin hopen
  dsimp only at hno
  have hok : RxOk irs ⟨{ s with rxWinLow := s.rxWinLow + 1, finSeen := true, state := st }, rcv⟩ bytes := by
    have hlow := h.low
    dsimp only at hlow
    refine ⟨⟨h.rep, ?_, h.carried, h.stored⟩, h.inside, h.size, fun hs => absurd hs hst.1, fun hs => absurd hs hst.2⟩
    dsimp only
    rw [hlow, hno]
    exact congrArg (· + 1) (BitVec.add_zero _)
  refine ⟨⟨bytes, hok.quiet (hfin.trans q) ?_ ?_ fun _ hp => hp⟩, fun _ _ => ?_⟩
  · exact fun hs => absurd (hst' ▸ hs) hst.1
  · exact fun hs => absurd (hst' ▸ hs) hst.2
  · rw [q.low]
    dsimp only
    rw [takeFin_low, BitVec.add_sub_cancel]
    exact hge

theorem finWait2_rx (h : RxOk irs ⟨s, rcv⟩ bytes) (hst : s.state = .finWait2)
    (hge : p.flags &&& PKT_FIN ≠ 0 → sequenceGte s.rxWinLow (p.seqNum + BitVec.ofNat 32 p.len)) (s₀ : TcpSocket)
    (hs₀ : s₀.finSeen = s.finSeen) : Taken irs rcv s₀ p (finWait2 s p) := by
  unfold finWait2
  split
  · rename_i hf
    refine Taken.fin h (.inr (.inr (.inr hst))) .timeWait (by decide) (hge hf) ?_ rfl s₀
    exact .of_eq ⟨rfl, rfl, rfl, rfl, rfl, rfl, rfl⟩
  · refine ⟨⟨bytes, h⟩, fun hno hyes => ?_⟩
    rw [hs₀] at hno
    cases hno.symm.trans hyes

/-- the data of a segment, then its FIN -/
theorem establishedInput_rx (h : RxOk irs ⟨s, rcv⟩ bytes) (hst : s.state = .established) (hp : p ∈ rcv)
    (hlen : p.len < 2 ^ 16) (hlow : 0 < p.len → Accepts s p → p.seqNum = s.rxWinLow ∧
      (p.flags &&& PKT_FIN ≠ 0 → (s.rxWinHigh - s.rxWinLow).toNat + 1 ≠ p.len)) (s₀ : TcpSocket)
    (hs₀ : s₀.finSeen = s.finSeen) : Taken irs rcv s₀ p
      (if p.flags &&& PKT_FIN ≠ 0 ∧ sequenceGte (if p.len > 0 then handleData s p else s).rxWinLow
          (p.seqNum + if p.len > 0 then BitVec.ofNat 32 (p.len - 1) else 0) then
        { takeFin (if p.len > 0 then handleData s p else s) with state := .closeWait, rxEvent := true }
      else if p.len > 0 then handleData s p else s) := by
  have hfinOpen : ∀ st, st = TcpState.established → FinOpen st := fun _ e => .inr (.inl e)
  by_cases hpos : p.len > 0
  · rw [if_pos hpos, if_pos hpos]
    obtain ⟨bytes', hdata⟩ := handleData_ok h hst hp hlen fun ha => (hlow hpos ha).1
    have hst' : (handleData s p).state = .established := (handleData_state s p).trans hst
    split
    · rename_i hf
      have hge := handleData_fin hlen hpos (fun ha => ⟨(hlow hpos ha).1, (hlow hpos ha).2 hf.1⟩) hf.2
      refine Taken.fin hdata (hfinOpen _ hst') .closeWait (by decide) hge ?_ rfl s₀
      exact .of_eq ⟨rfl, rfl, rfl, rfl, rfl, rfl, rfl⟩
    · refine ⟨⟨bytes', hdata⟩, fun _ hyes => ?_⟩
      cases (hdata.fin (hfinOpen _ hst')).symm.trans hyes
  · rw [if_neg hpos, if_neg hpos]
    split
    · rename_i hf
      have hzero : p.len = 0 := by omega
      have hge : sequenceGte s.rxWinLow (p.seqNum + BitVec.ofNat 32 p.len) := by
        rw [hzero]
        exact hf.2
      refine Taken.fin h (hfinOpen _ hst) .closeWait (by decide) hge ?_ rfl s₀
      exact .of_eq ⟨rfl, rfl, rfl, rfl, rfl, rfl, rfl⟩
    · refine ⟨⟨bytes, h⟩, fun hno hyes => ?_⟩
      rw [hs₀] at hno
      cases hno.symm.trans hyes

theorem ackPart_rx (s : TcpSocket) (p : TcpPacket) :
    RxQuiet s (if p.flags &&& PKT_ACK ≠ 0 then handleAck s p.ackNum p.winSize else s) ∧
      (if p.flags &&& PKT_ACK ≠ 0 then handleAck s p.ackNum p.winSize else s).state = s.state ∧
      (if p.flags &&& PKT_ACK ≠ 0 then handleAck s p.ackNum p.winSize else s).rxWinHigh = s.rxWinHigh := by
  split
  · exact ⟨handleAck_rx s p.ackNum p.winSize, handleAck_state s p.ackNum p.winSize,
      handleAck_high s p.ackNum p.winSize⟩
  · exact ⟨.refl s, rfl, rfl⟩

/-- the reset of a segment -/
theorem Taken.reset (h : RxOk irs ⟨s, rcv⟩ bytes) (hrcv : ∀ p ∈ rcv, p ∈ rcv') : Taken irs rcv' s p (sendReset s p) :=
  .same h (sendReset_rx s p) (sendReset_state s p) hrcv

theorem Taken.remoteClose (h : RxOk irs ⟨s, rcv⟩ bytes) (hrcv : ∀ p ∈ rcv, p ∈ rcv') :
    Taken irs rcv' s p (tcpRemoteClose s) := by
  have hst := tcpRemoteClose_state s
  refine .quiet h (tcpRemoteClose_rx s) (fun hs => ?_) (fun hs => ?_) hrcv
  · rw [hst] at hs
    exact absurd hs (by decide)
  · rw [hst] at hs
    exact absurd hs (by decide)

/-- **A segment.** -/
theorem tcpInput_rx (h : RxOk irs ⟨s, rcv⟩ bytes) (hclean : RxClean s (.input p)) :
    Taken irs (rcv ++ [p]) s p (tcpInput s p) := by
  obtain ⟨hlen, hclean⟩ := hclean
  have hrcv : ∀ q ∈ rcv, q ∈ rcv ++ [p] := fun q hq => List.mem_append_left _ hq
  have hp : p ∈ rcv ++ [p] := List.mem_append_right _ (List.mem_singleton_self p)
  have hnew : RxOk irs ⟨s, rcv ++ [p]⟩ bytes := h.same (.refl s) rfl hrcv
  unfold tcpInput
  dsimp only
  by_cases hrst : p.flags &&& PKT_RST ≠ 0
  · rw [if_pos hrst]
    split
    · exact .remoteClose h hrcv
    · exact .same h (.refl s) rfl hrcv
  rw [if_neg hrst]
  obtain ⟨hdata, hfin⟩ := hclean (not_not.mp hrst)
  split
  · exact .reset h hrcv
  · rename_i hst
    split
    · exact .reset h hrcv
    split
    · split
      · exact .reset h hrcv
      · refine .quiet h (.of_eq ⟨rfl, rfl, rfl, rfl, rfl, rfl, rfl⟩) (fun _ => .inl hst) (fun _ => .inl hst) hrcv
    · exact .reset h hrcv
  · rename_i hst
    obtain ⟨hq, hsame, hhigh⟩ := ackPart_rx s p
    generalize (if p.flags &&& PKT_ACK ≠ 0 then handleAck s p.ackNum p.winSize else s) = s₁ at hq hsame hhigh ⊢
    have hok : RxOk irs ⟨s₁, rcv ++ [p]⟩ bytes := h.same hq hsame hrcv
    refine establishedInput_rx hok (hsame.trans hst) hp hlen (fun hpos ha => ?_) s hq.fin.symm
    unfold Accepts at ha
    rw [hq.low] at ha
    rw [hq.low, hhigh]
    exact hdata hst hpos ha
  · rename_i hst
    obtain ⟨hq, hsame, -⟩ := ackPart_rx s p
    generalize (if p.flags &&& PKT_ACK ≠ 0 then handleAck s p.ackNum p.winSize else s) = s₁ at hq hsame ⊢
    split
    · exact .same h (hq.trans (sendAck_rx s₁)) ((sendAck_state s₁).trans hsame) hrcv
    · exact .same h hq hsame hrcv
  · split
    · exact .remoteClose h hrcv
    · exact .same h (.refl s) rfl hrcv
  · rename_i hst
    split
    · have hok : RxOk irs ⟨{ s with state := .finWait2 }, rcv ++ [p]⟩ bytes :=
        hnew.quiet (.of_eq ⟨rfl, rfl, rfl, rfl, rfl, rfl, rfl⟩)
          (fun hs => absurd (show DataOpen .finWait2 from hs) (by decide)) (fun _ => .inr (.inr (.inl hst)))
          fun _ hq => hq
      exact finWait2_rx hok rfl (hfin (.inl hst)) s rfl
    · split
      · rename_i hf
        exact Taken.fin hnew (.inr (.inr (.inl hst))) .closing (by decide) (hfin (.inl hst) hf) (.refl _) rfl s
      · exact .same h (.refl s) rfl hrcv
  · rename_i hst
    exact finWait2_rx hnew hst (hfin (.inr hst)) s rfl
  · split
    · refine .quiet h (.of_eq ⟨rfl, rfl, rfl, rfl, rfl, rfl, rfl⟩) (fun hs => ?_) (fun hs => ?_) hrcv
      · exact absurd (show DataOpen .timeWait from hs) (by decide)
      · exact absurd (show FinOpen .timeWait from hs) (by decide)
    · exact .same h (.refl s) rfl hrcv
  all_goals exact .same h (.refl s) rfl hrcv

/-! ## reading -/

theorem slice_fill (d : Nat → UInt8) (l : List UInt8) : Ring.slice (ByteQueue.fill d 0 l) 0 l.length = l := by
  apply List.ext_getElem
  · exact Ring.slice_length _ _ _
  · intro i h1 h2
    simp [Ring.slice, ByteQueue.fill, List.getElem?_eq_getElem h2]

/-- bytes given to the reader -/
theorem RxOk.give (h : RxOk irs ⟨s, rcv⟩ bytes) {c : Cbuf} (len : Nat)
    (hc : c.Rep ⟨DEFAULT_RX_WINDOW_SIZE - 1, bytes.drop len⟩) :
    RxOk irs ⟨{ s with rxBuffer := c, given := s.given ++ bytes.take len }, rcv⟩ (bytes.drop len) := by
  obtain ⟨⟨-, hlow, hcarried, hstored⟩, hinside, hsize, hwindow, hfin⟩ := h
  have htotal : s.given ++ bytes.take len ++ bytes.drop len = s.given ++ bytes := by
    rw [List.append_assoc, List.take_append_drop]
  dsimp only at hlow hcarried hstored hwindow
  refine ⟨⟨hc, ?_, ?_, ?_⟩, hinside, hsize, fun hs => ?_, hfin⟩ <;> dsimp only
  · rw [htotal]
    exact hlow
  · rw [htotal]
    exact hcarried
  · rw [htotal]
    exact hstored
  · have hwin := hwindow hs
    rw [List.length_drop]
    omega

theorem tcpRead_rx (h : RxOk irs ⟨s, rcv⟩ bytes) {len : Nat} (hr : tcpRead s len = some s') :
    ∃ bytes', RxOk irs ⟨s', rcv⟩ bytes' := by
  obtain ⟨c, hread, hrep⟩ := h.rep.read (some fun _ => 0) len
  dsimp only at hread hrep
  unfold tcpRead at hr
  rw [hread] at hr
  unfold ByteQueue.pop at hr hrep
  dsimp only [Option.map_some, Option.getD_some] at hr hrep
  simp only [slice_fill] at hr
  have hq : RxQuiet { s with rxBuffer := c, given := s.given ++ bytes.take len } s' ∧ s'.state = s.state := by
    cases hr
    split
    · split <;> exact ⟨.of_eq ⟨rfl, rfl, rfl, rfl, rfl, rfl, rfl⟩, rfl⟩
    · split <;> split
      · exact ⟨(sendAck_rx _).before ⟨rfl, rfl, rfl, rfl, rfl, rfl, rfl⟩, sendAck_state _⟩
      · exact ⟨.of_eq ⟨rfl, rfl, rfl, rfl, rfl, rfl, rfl⟩, rfl⟩
      · exact ⟨(sendAck_rx _).before ⟨rfl, rfl, rfl, rfl, rfl, rfl, rfl⟩, sendAck_state _⟩
      · exact ⟨.of_eq ⟨rfl, rfl, rfl, rfl, rfl, rfl, rfl⟩, rfl⟩
  exact ⟨bytes.drop len, (h.give len hrep).same hq.1 hq.2 fun _ hp => hp⟩

/-! ## runs -/

theorem tcpStep_rx (h : RxOk irs ⟨s, rcv⟩ bytes) {op : TcpOp} (hclean : RxClean s op) (hs : tcpStep s op = some s') :
    (∃ bytes', RxOk irs ⟨s', receivedAfter rcv op⟩ bytes') ∧ FinAfterData s op s' := by
  cases op with
  | input p =>
    cases hs
    exact tcpInput_rx h hclean
  | read len =>
    obtain ⟨-, hs⟩ := Option.ite_none_right_eq_some.mp hs
    exact ⟨tcpRead_rx h hs, trivial⟩
  | write buf =>
    obtain ⟨-, hs⟩ := Option.ite_none_right_eq_some.mp hs
    obtain ⟨hq, hst⟩ := tcpWrite_rx hs
    exact ⟨⟨bytes, h.same hq hst fun _ hp => hp⟩, trivial⟩
  | close =>
    cases hs
    obtain ⟨hdata, hfin⟩ := tcpClose_open s
    exact ⟨⟨bytes, h.quiet (tcpClose_rx s) (fun hs => absurd hs hdata) hfin fun _ hp => hp⟩, trivial⟩
  | timeout t =>
    obtain ⟨-, hs⟩ := Option.ite_none_right_eq_some.mp hs
    cases hs
    obtain ⟨hq, hst⟩ := tcpTimeout_rx s t
    exact ⟨⟨bytes, h.same hq hst fun _ hp => hp⟩, trivial⟩

/-- the receive half of `create_tcp_socket`, before the answer to the SYN -/
theorem acceptSocket_eq (rand seq : BitVec 32) (rxMem txMem : Nat → UInt8) : ∃ s₀ : TcpSocket,
    acceptSocket rand seq rxMem txMem = { tcpSocketSend s₀ [] (PKT_ACK ||| PKT_SYN) s₀.txWinLow with
      txWinLow := (tcpSocketSend s₀ [] (PKT_ACK ||| PKT_SYN) s₀.txWinLow).txWinLow + 1 } ∧
    s₀.state = .synRcvd ∧ s₀.rxWinSize = DEFAULT_RX_WINDOW_SIZE ∧ s₀.rxWinLow = seq + 1 ∧
    s₀.rxWinHigh = seq + 1 + BitVec.ofNat 32 DEFAULT_RX_WINDOW_SIZE - 1 ∧
    s₀.rxBuffer = Cbuf.cbufInitializeEtc DEFAULT_RX_WINDOW_SIZE rxMem ∧ s₀.given = [] ∧ s₀.copies = [] ∧
    s₀.finSeen = false :=
  ⟨_, rfl, rfl, rfl, rfl, rfl, rfl, rfl, rfl, rfl⟩

theorem acceptSocket_rx (rand seq : BitVec 32) (rxMem txMem : Nat → UInt8) :
    RxOk (seq + 1) ⟨acceptSocket rand seq rxMem txMem, []⟩ [] := by
  obtain ⟨s₀, he, hst, hsize, hlow, hhigh, hbuf, hgiven, hcopies, hfin⟩ := acceptSocket_eq rand seq rxMem txMem
  have hrep := Cbuf.rep_init DEFAULT_RX_WINDOW_SIZE rxMem
  have hcap : 2 ^ (Cbuf.cbufInitializeEtc DEFAULT_RX_WINDOW_SIZE rxMem).lenPow2 - 1 = DEFAULT_RX_WINDOW_SIZE - 1 := by
    show 2 ^ log2Uint (DEFAULT_RX_WINDOW_SIZE % 2 ^ 32) - 1 = _
    decide
  rw [hcap] at hrep
  have hbase : RxOk (seq + 1) ⟨s₀, []⟩ [] := by
    refine ⟨⟨?_, ?_, ?_, ?_⟩, ?_, hsize, fun _ => ?_, fun _ => hfin⟩ <;> dsimp only
    · rw [hbuf]
      exact hrep
    · rw [hlow, hgiven, hfin]
      exact ((BitVec.add_zero _).trans (BitVec.add_zero _)).symm
    · intro i b hb
      rw [hgiven] at hb
      cases hb
    · rw [hcopies, hgiven]
      rfl
    · intro c hc
      rw [hcopies] at hc
      cases hc
    · rw [hhigh, hlow]
      unfold DEFAULT_RX_WINDOW_SIZE
      generalize seq + 1 = low
      have hsub : low + BitVec.ofNat 32 8192 - 1 - low = BitVec.ofNat 32 8191 := by bv_omega
      rw [hsub]
      decide
  obtain ⟨-, -, -, -, -, -, hstate, -⟩ := tcpSocketSend_eq s₀ [] (PKT_ACK ||| PKT_SYN) s₀.txWinLow
  have hsend := tcpSocketSend_rx s₀ [] (PKT_ACK ||| PKT_SYN) s₀.txWinLow
  rw [he]
  exact hbase.same (hsend.trans (.of_eq ⟨rfl, rfl, rfl, rfl, rfl, rfl, rfl⟩)) hstate fun _ hp => hp

end

/-- **What a connection receives.**  In a run under the condition what was read and what waits in the buffer is the
stream, each byte once and from inside a segment, up to `rx_win_low`; and a FIN is acted on behind the last byte
before it. -/
theorem tcp_receives {rand seq : BitVec 32} {h : TcpHistory}
    (hr : (historySys rand seq).Run (fun h op => RxClean h.socket op) h) : TcpReceived (seq + 1) h ∧
      ∀ op s', RxClean h.socket op → tcpStep h.socket op = some s' → FinAfterData h.socket op s' := by
  obtain ⟨bytes, hok⟩ : ∃ bytes, RxOk (seq + 1) h bytes := by
    refine hr.invariant (I := fun h => ∃ bytes, RxOk (seq + 1) h bytes) (fun h h0 => ?_)
      fun h op h' hok hclean hs => ?_
    · obtain ⟨s, rcv⟩ := h
      obtain ⟨⟨rxMem, txMem, hs⟩, hrcv⟩ := h0
      dsimp only at hs hrcv
      rw [hs, hrcv]
      exact ⟨[], acceptSocket_rx rand seq rxMem txMem⟩
    · obtain ⟨bytes, hok⟩ := hok
      obtain ⟨s', hstep, rfl⟩ := Option.map_eq_some_iff.mp hs
      exact (tcpStep_rx hok hclean hstep).1
  exact ⟨⟨⟨bytes, hok.toBuffered⟩, hok.inside⟩, fun op s' hclean hs => (tcpStep_rx hok hclean hs).2⟩

/-! ## three bytes -/

/-- three bytes under the sequence numbers from `seqNum` on -/
def threeBytes (seqNum : BitVec 32) : TcpPacket := ⟨seqNum, 1, PKT_ACK, 8192, fun i => UInt8.ofNat i, 3⟩

def ackOne : TcpPacket := ⟨1, 1, PKT_ACK, 8192, fun _ => 0, 0⟩

/-- the connection that answered the SYN 0, with its SYN acknowledged -/
theorem answered_established : (tcpInput answered ackOne).state = .established ∧
    (tcpInput answered ackOne).rxWinLow = 1 ∧ (tcpInput answered ackOne).rxWinHigh = 8192 := by decide

/-- the theorem after three bytes from `rx_win_low` on -/
theorem tcp_receives_three : ∃ h, h.received = [ackOne, threeBytes 1] ∧ TcpReceived 1 h ∧
    ∀ op s', RxClean h.socket op → tcpStep h.socket op = some s' → FinAfterData h.socket op s' := by
  have h0 : (historySys 0 0).Run (fun h op => RxClean h.socket op) ⟨answered, []⟩ := .init ⟨⟨_, _, rfl⟩, rfl⟩
  obtain ⟨hst, hlow, -⟩ := answered_established
  refine ⟨_, rfl, tcp_receives (.step (a := .input (threeBytes 1)) (.step (a := .input ackOne) h0 ?_ rfl) ?_ rfl)⟩
  · exact ⟨by decide, fun _ => ⟨fun _ hpos => absurd hpos (by decide), fun hs => absurd hs (by decide)⟩⟩
  · refine ⟨by decide, fun _ => ⟨fun _ _ _ => ⟨hlow.symm, fun hf => absurd hf (by decide)⟩, fun hs => ?_⟩⟩
    change (tcpInput answered ackOne).state = .finWait1 ∨ (tcpInput answered ackOne).state = .finWait2 at hs
    rw [hst] at hs
    exact absurd hs (by decide)

/-- **A segment that begins before `rx_win_low`.**  `handle_data` takes the difference the wrong way round, and copies
from far behind the segment. -/
theorem tcp_receives_fails : ¬ ∀ (rand seq : BitVec 32) (h : TcpHistory), (historySys rand seq).Reach h →
    TcpReceived (seq + 1) h ∧ ∀ op s', tcpStep h.socket op = some s' → FinAfterData h.socket op s' := by
  intro hall
  have hr : (historySys 0 0).Reach ⟨answered, []⟩ := .init ⟨⟨_, _, rfl⟩, rfl⟩
  have hr : (historySys 0 0).Reach ⟨tcpInput (tcpInput answered ackOne) (threeBytes 0), [ackOne, threeBytes 0]⟩ :=
    hr.exec [.input ackOne, .input (threeBytes 0)] rfl
  obtain ⟨hst, hlow, hhigh⟩ := answered_established
  have hcopies : (⟨2 ^ 32 - 1, 8191, 3⟩ : TcpCopy) ∈ (tcpInput (tcpInput answered ackOne) (threeBytes 0)).copies := by
    generalize tcpInput answered ackOne = s at hst hlow hhigh ⊢
    have hinput : tcpInput s (threeBytes 0) = handleData (handleAck s 1 8192) (threeBytes 0) := by
      unfold tcpInput
      dsimp only
      rw [if_neg (by decide), hst]
      dsimp only
      rw [if_neg (fun hf => absurd hf.1 (by decide)), if_pos (by decide), if_pos (by decide)]
      rfl
    have hq := handleAck_rx s 1 8192
    have ha : Accepts (handleAck s 1 8192) (threeBytes 0) := by
      unfold Accepts
      rw [hq.low, hlow]
      decide
    have htakes : handleData (handleAck s 1 8192) (threeBytes 0) = ackData (storeData (handleAck s 1 8192)
        (threeBytes 0) _ _) := if_pos ha
    rw [hinput, htakes, (ackData_rx _).copies, hq.low, handleAck_high, hlow, hhigh]
    exact List.mem_append_right _ (List.mem_singleton_self _)
  have hin := (hall 0 0 _ hr).1.inside _ hcopies
  exact absurd hin (by decide)

end LkHv.Net.Tcp
