import LkHv.Net.Tcp

/-!
# What a TCP connection sends

`iss` is the sequence number of the first byte: the SYN has the one before, and the FIN takes the one behind the last byte.

* `TcpSent`          the window covers the buffer, segments carry the bytes of their sequence numbers, the FIN comes last;
* `TcpClean`         the condition;
* `Sending`          where the window stands in the stream, while there is something to send;
* `SendOk`           the invariant;
* `tcp_sends`        under it a connection sends its stream;
* `tcp_sends_fails`  not so when a byte that is not acknowledged is there at `tcp_close`.
-/

namespace LkHv.Net.Tcp

/-- the segment carries bytes of the stream under their sequence numbers -/
def Carried (iss : BitVec 32) (stream : List UInt8) (g : TcpSegment) : Prop :=
  ∃ pos, g.sequence = iss + BitVec.ofNat 32 pos ∧ pos + g.data.length ≤ stream.length ∧
    g.data = (stream.drop pos).take g.data.length

/-- the FIN took a sequence number -/
def finNumber (sent : List TcpSegment) : BitVec 32 := if ∃ g ∈ sent, g.flags &&& PKT_FIN ≠ 0 then 1 else 0

/-- the buffer is the stream from `tx_win_low` on, without the number that the FIN took; and what was sent ends in it,
but for a SYN that is not acknowledged -/
def TxWindow (iss : BitVec 32) (s : TcpSocket) : Prop :=
  ∃ low ≤ s.written.length, s.txWinLow = iss + BitVec.ofNat 32 low + finNumber s.sent ∧
    Ring.slice s.txBuffer 0 s.txBufferOffset = s.written.drop low ∧
      ((s.txHighestSeq - (iss + BitVec.ofNat 32 low)).toNat ≤ s.txBufferOffset ∨
        s.written = [] ∧ s.txHighestSeq + 1 = iss)

/-- **The stream.** -/
structure TcpSent (iss : BitVec 32) (s : TcpSocket) : Prop where
  /-- `tx_win_low <= tx_highest_seq <= tx_win_low + tx_buffer_offset` between SYN and FIN -/
  highest : s.state = .established ∨ s.state = .closeWait → (s.txHighestSeq - s.txWinLow).toNat ≤ s.txBufferOffset
  window : TxWindow iss s
  data : ∀ g ∈ s.sent, g.data ≠ [] → Carried iss s.written g
  once : ∀ g ∈ s.sent, ∀ h ∈ s.sent, ∀ i j, i < g.data.length → j < h.data.length →
    g.sequence + BitVec.ofNat 32 i = h.sequence + BitVec.ofNat 32 j → g.data[i]? = h.data[j]?
  fin : ∀ g ∈ s.sent, g.flags &&& PKT_FIN ≠ 0 → g.sequence = iss + BitVec.ofNat 32 s.written.length

/-- `tcp_close` finds every byte acknowledged, and the sequence numbers do not come round -/
def TcpClean (s : TcpSocket) : TcpOp → Prop
  | .close => s.state = .established ∨ s.state = .closeWait → s.txBufferOffset = 0
  | .write buf => s.written.length + buf.length ≤ 2 ^ 32
  | _ => True

/-- the connections that answer a SYN -/
def tcpSys (rand seq : BitVec 32) : Machine TcpSocket TcpOp :=
  .ofFun (fun s => ∃ rxMem txMem, s = acceptSocket rand seq rxMem txMem) tcpStep

/-! ## what leaves the send half alone -/

/-- the send half is as it was, and only segments without data and FIN were sent -/
structure TxQuiet (s s' : TcpSocket) : Prop where
  mss : s'.mss = s.mss
  winLow : s'.txWinLow = s.txWinLow
  highest : s'.txHighestSeq = s.txHighestSeq
  buffer : s'.txBuffer = s.txBuffer
  size : s'.txBufferSize = s.txBufferSize
  offset : s'.txBufferOffset = s.txBufferOffset
  written : s'.written = s.written
  sent : ∃ segs, s'.sent = s.sent ++ segs ∧ ∀ g ∈ segs, g.data = [] ∧ g.flags &&& PKT_FIN = 0

section
variable {s s' s'' : TcpSocket} {iss rand seq : BitVec 32} {low high : Nat} {p : TcpPacket}

theorem TxQuiet.of_eq (h : s'.mss = s.mss ∧ s'.txWinLow = s.txWinLow ∧ s'.txHighestSeq = s.txHighestSeq ∧
    s'.txBuffer = s.txBuffer ∧ s'.txBufferSize = s.txBufferSize ∧ s'.txBufferOffset = s.txBufferOffset ∧
    s'.written = s.written ∧ s'.sent = s.sent) : TxQuiet s s' := by
  obtain ⟨h1, h2, h3, h4, h5, h6, h7, h8⟩ := h
  exact ⟨h1, h2, h3, h4, h5, h6, h7, [], by rw [h8, List.append_nil], fun g hg => (by cases hg)⟩

theorem TxQuiet.refl (s : TcpSocket) : TxQuiet s s := .of_eq ⟨rfl, rfl, rfl, rfl, rfl, rfl, rfl, rfl⟩

theorem TxQuiet.trans (h : TxQuiet s s') (h' : TxQuiet s' s'') : TxQuiet s s'' := by
  obtain ⟨segs, h1, h2⟩ := h.sent
  obtain ⟨segs', h3, h4⟩ := h'.sent
  refine ⟨h'.mss.trans h.mss, h'.winLow.trans h.winLow, h'.highest.trans h.highest, h'.buffer.trans h.buffer,
    h'.size.trans h.size, h'.offset.trans h.offset, h'.written.trans h.written, segs ++ segs', ?_, fun g hg => ?_⟩
  · rw [h3, h1, List.append_assoc]
  · rcases List.mem_append.mp hg with hg | hg
    · exact h2 g hg
    · exact h4 g hg

/-- what `tcp_socket_send` does to the send half is to send -/
theorem tcpSocketSend_eq (s : TcpSocket) (data : List UInt8) (flags : Nat) (sequence : BitVec 32) :
    ∃ g, g.sequence = sequence ∧ g.data = data ∧ g.flags = flags ∧
      (tcpSocketSend s data flags sequence).sent = s.sent ++ [g] ∧ (tcpSocketSend s data flags sequence).mss = s.mss ∧
      (tcpSocketSend s data flags sequence).state = s.state ∧
      (tcpSocketSend s data flags sequence).txWinLow = s.txWinLow ∧
      (tcpSocketSend s data flags sequence).txHighestSeq = s.txHighestSeq ∧
      (tcpSocketSend s data flags sequence).txBuffer = s.txBuffer ∧
      (tcpSocketSend s data flags sequence).txBufferSize = s.txBufferSize ∧
      (tcpSocketSend s data flags sequence).txBufferOffset = s.txBufferOffset ∧
      (tcpSocketSend s data flags sequence).written = s.written := by
  unfold tcpSocketSend tcpSend tcpTimerCancel
  dsimp only
  split <;> split <;> exact ⟨_, rfl, rfl, rfl, rfl, rfl, rfl, rfl, rfl, rfl, rfl, rfl, rfl⟩

theorem tcpSocketSend_quiet (s : TcpSocket) {flags : Nat} (hf : flags &&& PKT_FIN = 0) (sequence : BitVec 32) :
    TxQuiet s (tcpSocketSend s [] flags sequence) := by
  obtain ⟨g, -, hdata, hflags, hsent, h1, -, h2, h3, h4, h5, h6, h7⟩ := tcpSocketSend_eq s [] flags sequence
  refine ⟨h1, h2, h3, h4, h5, h6, h7, [g], hsent, fun g' hg => ?_⟩
  rw [List.mem_singleton.mp hg, hflags]
  exact ⟨hdata, hf⟩

theorem sendAck_quiet (s : TcpSocket) : TxQuiet s (sendAck s) := by
  unfold sendAck
  split
  · exact .refl s
  · exact tcpSocketSend_quiet s (by decide) _

theorem TxQuiet.ack (h : TxQuiet s s') : TxQuiet s (sendAck s') := h.trans (sendAck_quiet s')

theorem sendAck_state (s : TcpSocket) : (sendAck s).state = s.state := by
  unfold sendAck
  split
  · rfl
  · obtain ⟨-, -, -, -, -, -, h, -⟩ := tcpSocketSend_eq s [] PKT_ACK s.txWinLow
    exact h

theorem sendReset_quiet (s : TcpSocket) (p : TcpPacket) : TxQuiet s (sendReset s p) := by
  unfold sendReset
  split
  · refine ⟨rfl, rfl, rfl, rfl, rfl, rfl, rfl, [_], rfl, fun g hg => ?_⟩
    rw [List.mem_singleton.mp hg]
    exact ⟨rfl, by dsimp only; decide⟩
  · exact .refl s

theorem sendReset_state (s : TcpSocket) (p : TcpPacket) : (sendReset s p).state = s.state := by
  unfold sendReset
  split <;> rfl

theorem ackData_quiet (s : TcpSocket) : TxQuiet s (ackData s) := by
  unfold ackData
  split
  · exact (sendAck_quiet s).trans (.of_eq ⟨rfl, rfl, rfl, rfl, rfl, rfl, rfl, rfl⟩)
  · exact .of_eq ⟨rfl, rfl, rfl, rfl, rfl, rfl, rfl, rfl⟩

theorem TxQuiet.ackData (h : TxQuiet s s') : TxQuiet s (ackData s') := h.trans (ackData_quiet s')

theorem ackData_state (s : TcpSocket) : (ackData s).state = s.state := by
  unfold ackData
  split
  · exact sendAck_state s
  · rfl

theorem handleData_quiet (s : TcpSocket) (p : TcpPacket) : TxQuiet s (handleData s p) := by
  unfold handleData
  dsimp only
  split
  · exact TxQuiet.ackData (.of_eq ⟨rfl, rfl, rfl, rfl, rfl, rfl, rfl, rfl⟩)
  · exact sendAck_quiet s

theorem handleData_state (s : TcpSocket) (p : TcpPacket) : (handleData s p).state = s.state := by
  unfold handleData
  dsimp only
  split
  · exact ackData_state _
  · exact sendAck_state s

theorem takeFin_quiet (s : TcpSocket) : TxQuiet s (takeFin s) :=
  TxQuiet.ack (.of_eq ⟨rfl, rfl, rfl, rfl, rfl, rfl, rfl, rfl⟩)

theorem tcpRemoteClose_quiet (s : TcpSocket) : TxQuiet s (tcpRemoteClose s) := by
  unfold tcpRemoteClose
  split
  · exact .refl s
  · exact .of_eq ⟨rfl, rfl, rfl, rfl, rfl, rfl, rfl, rfl⟩

theorem tcpRemoteClose_state (s : TcpSocket) : (tcpRemoteClose s).state = .closed := by
  unfold tcpRemoteClose
  split
  · assumption
  · rfl

theorem finWait2_quiet (s : TcpSocket) (p : TcpPacket) : TxQuiet s (finWait2 s p) := by
  unfold finWait2
  split
  · exact (takeFin_quiet s).trans (.of_eq ⟨rfl, rfl, rfl, rfl, rfl, rfl, rfl, rfl⟩)
  · exact .refl s

theorem tcpRead_quiet {len : Nat} (h : tcpRead s len = some s') : TxQuiet s s' ∧ s'.state = s.state := by
  unfold tcpRead at h
  obtain ⟨⟨c, dst, ret⟩, -, rfl⟩ := Option.map_eq_some_iff.mp h
  dsimp only
  split
  · split <;> exact ⟨.of_eq ⟨rfl, rfl, rfl, rfl, rfl, rfl, rfl, rfl⟩, rfl⟩
  · split <;> split
    · exact ⟨TxQuiet.ack (.of_eq ⟨rfl, rfl, rfl, rfl, rfl, rfl, rfl, rfl⟩), sendAck_state _⟩
    · exact ⟨.of_eq ⟨rfl, rfl, rfl, rfl, rfl, rfl, rfl, rfl⟩, rfl⟩
    · exact ⟨TxQuiet.ack (.of_eq ⟨rfl, rfl, rfl, rfl, rfl, rfl, rfl, rfl⟩), sendAck_state _⟩
    · exact ⟨.of_eq ⟨rfl, rfl, rfl, rfl, rfl, rfl, rfl, rfl⟩, rfl⟩

/-! ## the window in the stream -/

theorem slice_drop {α : Type*} (m : Nat → α) (t : Nat) {k n : Nat} (h : k ≤ n) :
    (Ring.slice m t n).drop k = Ring.slice m (t + k) (n - k) := by
  obtain ⟨d, rfl⟩ := Nat.exists_eq_add_of_le h
  rw [Ring.slice_add, List.drop_left' (Ring.slice_length m t k), Nat.add_sub_cancel_left]

theorem slice_getD (l : List UInt8) {n : Nat} (h : n ≤ l.length) : Ring.slice (fun i => l.getD i 0) 0 n = l.take n := by
  induction n with
  | zero => rfl
  | succ n ih =>
    rw [Ring.slice_add, ih (by omega), List.take_succ_eq_append_getElem h]
    congr 1
    show [l.getD (0 + n + 0) 0] = [l[n]]
    rw [Nat.zero_add, Nat.add_zero, List.getD_eq_getElem l 0 h]

/-- equal sequence numbers are of one place -/
theorem seq_inj {a b : Nat} (ha : a < 2 ^ 32) (hb : b < 2 ^ 32)
    (h : iss + BitVec.ofNat 32 a = iss + BitVec.ofNat 32 b) : a = b := by
  have hab := BitVec.add_right_inj iss |>.mp h
  have hn := congrArg BitVec.toNat hab
  rwa [BitVec.toNat_ofNat, BitVec.toNat_ofNat, Nat.mod_eq_of_lt ha, Nat.mod_eq_of_lt hb] at hn

theorem seq_add (a b : Nat) : iss + BitVec.ofNat 32 a + BitVec.ofNat 32 b = iss + BitVec.ofNat 32 (a + b) := by
  rw [BitVec.add_assoc, BitVec.ofNat_add]

/-- the first `low` bytes are acknowledged, the first `high` bytes sent -/
structure Sending (iss : BitVec 32) (low high : Nat) (s : TcpSocket) : Prop where
  winLow : s.txWinLow = iss + BitVec.ofNat 32 low
  highest : s.txHighestSeq = iss + BitVec.ofNat 32 high
  le : low ≤ high
  high_le : high ≤ s.written.length
  offset : s.txBufferOffset + low = s.written.length
  fits : s.txBufferOffset ≤ s.txBufferSize
  buffer : Ring.slice s.txBuffer 0 s.txBufferOffset = s.written.drop low

theorem Sending.outstanding (h : Sending iss low high s) (hsize : s.txBufferSize ≤ DEFAULT_TX_BUFFER_SIZE) :
    (s.txHighestSeq - s.txWinLow).toNat = high - low := by
  have h1 := h.offset
  have h2 := h.fits
  have h3 := h.high_le
  have h4 := h.le
  unfold DEFAULT_TX_BUFFER_SIZE at hsize
  rw [h.highest, h.winLow]
  have hsub : iss + BitVec.ofNat 32 high - (iss + BitVec.ofNat 32 low) =
      BitVec.ofNat 32 high - BitVec.ofNat 32 low := by bv_omega
  rw [hsub]
  exact Serial.sub_ofNat h4 (by omega)

/-- the invariant -/
structure SendOk (iss : BitVec 32) (s : TcpSocket) : Prop where
  mss : 0 < s.mss
  size : s.txBufferSize ≤ DEFAULT_TX_BUFFER_SIZE
  bound : s.written.length ≤ 2 ^ 32
  data : ∀ g ∈ s.sent, g.data ≠ [] → Carried iss s.written g
  fin : ∀ g ∈ s.sent, g.flags &&& PKT_FIN ≠ 0 → g.sequence = iss + BitVec.ofNat 32 s.written.length
  live : s.state = .established ∨ s.state = .closeWait →
    (∃ low high, Sending iss low high s) ∧ ∀ g ∈ s.sent, g.flags &&& PKT_FIN = 0
  syn : s.state = .synRcvd → s.written = [] ∧ s.txBufferOffset = 0 ∧ s.txWinLow = iss ∧
    ∀ g ∈ s.sent, g.flags &&& PKT_FIN = 0
  window : TxWindow iss s

theorem finNumber_none {sent : List TcpSegment} (h : ∀ g ∈ sent, g.flags &&& PKT_FIN = 0) : finNumber sent = 0 := by
  unfold finNumber
  rw [if_neg]
  rintro ⟨g, hg, hf⟩
  exact hf (h g hg)

/-- segments without a FIN take no number -/
theorem finNumber_append (sent : List TcpSegment) {segs : List TcpSegment} (h : ∀ g ∈ segs, g.flags &&& PKT_FIN = 0) :
    finNumber (sent ++ segs) = finNumber sent := by
  have hiff : (∃ g ∈ sent ++ segs, g.flags &&& PKT_FIN ≠ 0) ↔ ∃ g ∈ sent, g.flags &&& PKT_FIN ≠ 0 := by
    constructor
    · rintro ⟨g, hg, hf⟩
      rcases List.mem_append.mp hg with hg | hg
      · exact ⟨g, hg, hf⟩
      · exact absurd (h g hg) hf
    · rintro ⟨g, hg, hf⟩
      exact ⟨g, List.mem_append_left _ hg, hf⟩
  unfold finNumber
  rw [if_congr hiff rfl rfl]

/-- what was sent is in the buffer -/
theorem Sending.highest_le (h : Sending iss low high s) (hsize : s.txBufferSize ≤ DEFAULT_TX_BUFFER_SIZE) :
    (s.txHighestSeq - s.txWinLow).toNat ≤ s.txBufferOffset := by
  have h1 := h.offset
  have h2 := h.high_le
  rw [h.outstanding hsize]
  omega

theorem Sending.window (h : Sending iss low high s) (hsize : s.txBufferSize ≤ DEFAULT_TX_BUFFER_SIZE)
    (hno : ∀ g ∈ s.sent, g.flags &&& PKT_FIN = 0) : TxWindow iss s := by
  have h1 := h.offset
  have h2 := h.highest_le hsize
  rw [h.winLow] at h2
  refine ⟨low, by omega, ?_, h.buffer, .inl h2⟩
  rw [finNumber_none hno, h.winLow]
  exact (BitVec.add_zero _).symm

/-- what the buffer holds in a place is what the stream has there -/
theorem Sending.slice (h : Sending iss low high s) {k n : Nat} (hk : k + n ≤ s.txBufferOffset) :
    Ring.slice s.txBuffer k n = (s.written.drop (low + k)).take n := by
  have hdrop : ((Ring.slice s.txBuffer 0 s.txBufferOffset).drop k).take n = ((s.written.drop low).drop k).take n := by
    rw [h.buffer]
  rw [slice_drop _ _ (by omega), Ring.slice_take, Nat.zero_add, Nat.min_eq_left (by omega), List.drop_drop] at hdrop
  exact hdrop

/-- the send half does not change, and no state comes in which it would have to be sending -/
theorem SendOk.quiet (h : SendOk iss s) (q : TxQuiet s s')
    (hlive : s'.state = .established ∨ s'.state = .closeWait → s.state = .established ∨ s.state = .closeWait)
    (hsyn : s'.state = .synRcvd → s.state = .synRcvd) : SendOk iss s' := by
  obtain ⟨segs, hsent, hsegs⟩ := q.sent
  have hnone : (∀ g ∈ s.sent, g.flags &&& PKT_FIN = 0) → ∀ g ∈ s'.sent, g.flags &&& PKT_FIN = 0 := by
    intro hold g hg
    rw [hsent] at hg
    rcases List.mem_append.mp hg with hg | hg
    · exact hold g hg
    · exact (hsegs g hg).2
  refine ⟨by rw [q.mss]; exact h.mss, by rw [q.size]; exact h.size, by rw [q.written]; exact h.bound, fun g hg hd => ?_,
    fun g hg hf => ?_, fun hs => ?_, fun hs => ?_, ?_⟩
  · rw [q.written]
    rw [hsent] at hg
    rcases List.mem_append.mp hg with hg | hg
    · exact h.data g hg hd
    · exact absurd (hsegs g hg).1 hd
  · rw [q.written]
    rw [hsent] at hg
    rcases List.mem_append.mp hg with hg | hg
    · exact h.fin g hg hf
    · exact absurd (hsegs g hg).2 hf
  · obtain ⟨⟨low, high, hsend⟩, hno⟩ := h.live (hlive hs)
    refine ⟨⟨low, high, ?_⟩, hnone hno⟩
    constructor
    · rw [q.winLow, hsend.winLow]
    · rw [q.highest, hsend.highest]
    · exact hsend.le
    · rw [q.written]
      exact hsend.high_le
    · rw [q.offset, q.written]
      exact hsend.offset
    · rw [q.offset, q.size]
      exact hsend.fits
    · rw [q.buffer, q.offset, q.written]
      exact hsend.buffer
  · obtain ⟨h1, h2, h3, h4⟩ := h.syn (hsyn hs)
    exact ⟨q.written.trans h1, q.offset.trans h2, q.winLow.trans h3, hnone h4⟩
  · unfold TxWindow
    rw [q.written, q.winLow, q.highest, q.buffer, q.offset, hsent, finNumber_append _ fun g hg => (hsegs g hg).2]
    exact h.window

/-! ## acknowledgements -/

theorem handleAck_state (s : TcpSocket) (sequence : BitVec 32) (winSize : Nat) :
    (handleAck s sequence winSize).state = s.state := by
  unfold handleAck
  dsimp only
  split
  · rfl
  · split
    · rfl
    · split <;> rfl

/-- an acknowledgement that counts is of bytes sent and not acknowledged -/
theorem acked_le (a : BitVec 32) {o : Nat} (ho : o ≤ 2 ^ 13) (hlow : ¬ sequenceLte a iss)
    (hhigh : ¬ sequenceGt a (iss + BitVec.ofNat 32 o)) : 0 < (a - iss).toNat ∧ (a - iss).toNat ≤ o := by
  unfold sequenceLte at hlow
  unfold sequenceGt at hhigh
  have hsub : a - (iss + BitVec.ofNat 32 o) = a - iss - BitVec.ofNat 32 o := by bv_omega
  rw [hsub] at hhigh
  generalize a - iss = d at hlow hhigh ⊢
  have hd := d.isLt
  rw [BitVec.toInt_eq_toNat_cond] at hlow hhigh
  rw [BitVec.toNat_sub, BitVec.toNat_ofNat] at hhigh
  split at hlow <;> split at hhigh <;> omega

theorem handleAck_ok (h : SendOk iss s) (hs : s.state = .established ∨ s.state = .closeWait) (sequence : BitVec 32)
    (winSize : Nat) : SendOk iss (handleAck s sequence winSize) := by
  unfold handleAck
  dsimp only
  split
  · exact h
  rename_i hlow
  split
  · exact h
  rename_i hhigh
  obtain ⟨⟨low, high, hsend⟩, hno⟩ := h.live hs
  have hsize := h.size
  have hlt := hsend.offset
  have hfit := hsend.fits
  have hle := hsend.le
  have hhl := hsend.high_le
  unfold DEFAULT_TX_BUFFER_SIZE at hsize
  obtain ⟨d, hd⟩ : ∃ d, d = (sequence - s.txWinLow).toNat := ⟨_, rfl⟩
  have hhigh' : s.txHighestSeq = s.txWinLow + BitVec.ofNat 32 (high - low) := by
    rw [hsend.winLow, seq_add, Nat.add_sub_cancel' hle, hsend.highest]
  rw [hhigh'] at hhigh
  obtain ⟨hpos, hdle⟩ := acked_le sequence (by lia) hlow hhigh
  rw [← hd] at hpos hdle ⊢
  have hsub : sub32 s.txBufferOffset d = s.txBufferOffset - d := sub32_of_le (by lia) (by lia)
  rw [hsub]
  have hmoved : Sending iss (low + d) high { s with
      txBuffer := Ring.put s.txBuffer 0 (fun i => s.txBuffer (d + i)) (s.txBufferOffset - d)
      txBufferOffset := s.txBufferOffset - d
      txWinLow := s.txWinLow + BitVec.ofNat 32 d } := by
    refine ⟨?_, hsend.highest, by lia, hhl, ?_, ?_, ?_⟩
    · show s.txWinLow + BitVec.ofNat 32 d = _
      rw [hsend.winLow, seq_add]
    · show s.txBufferOffset - d + (low + d) = s.written.length
      lia
    · show s.txBufferOffset - d ≤ s.txBufferSize
      lia
    · show Ring.slice (Ring.put s.txBuffer 0 (fun i => s.txBuffer (d + i)) _) 0 _ = s.written.drop (low + d)
      rw [Ring.slice_put, ← List.drop_drop, ← hsend.buffer, slice_drop _ _ (by lia), Nat.zero_add]
      exact Ring.slice_congr fun i _ => by rw [Nat.zero_add]
  split <;>
  · refine ⟨h.mss, h.size, h.bound, h.data, h.fin, fun _ => ⟨⟨low + d, high, ?_⟩, hno⟩, fun hsyn => ?_,
      hmoved.window h.size hno⟩
    · exact ⟨hmoved.winLow, hmoved.highest, hmoved.le, hmoved.high_le, hmoved.offset, hmoved.fits, hmoved.buffer⟩
    · have hsyn : s.state = .synRcvd := hsyn
      rw [hsyn] at hs
      rcases hs with hs | hs <;> cases hs

/-! ## data -/

/-- a segment of the stream is sent -/
theorem sendData_ok (h : SendOk iss s) (hs : s.state = .established ∨ s.state = .closeWait)
    (hsend : Sending iss low high s) {k n pos : Nat} (hpos : pos = low + k) (hk : k + n ≤ s.txBufferOffset) {s1 : TcpSocket}
    (hs1 : s1 = tcpSocketSend s (Ring.slice s.txBuffer k n) (PKT_ACK ||| PKT_PSH) (iss + BitVec.ofNat 32 pos)) :
    SendOk iss s1 ∧ Sending iss low high s1 ∧ s1.state = s.state ∧ s1.mss = s.mss ∧
      s1.txBufferOffset = s.txBufferOffset ∧ s1.written = s.written ∧ s1.txHighestSeq = s.txHighestSeq := by
  obtain ⟨g, hseq, hdata, hflags, hsent, h1, h2, h3, h4, h5, h6, h7, h8⟩ :=
    tcpSocketSend_eq s (Ring.slice s.txBuffer k n) (PKT_ACK ||| PKT_PSH) (iss + BitVec.ofNat 32 pos)
  rw [← hs1] at hsent h1 h2 h3 h4 h5 h6 h7 h8
  have hsend1 : Sending iss low high s1 := by
    refine ⟨h3.trans hsend.winLow, h4.trans hsend.highest, hsend.le, ?_, ?_, ?_, ?_⟩
    · rw [h8]
      exact hsend.high_le
    · rw [h7, h8]
      exact hsend.offset
    · rw [h7, h6]
      exact hsend.fits
    · rw [h5, h7, h8]
      exact hsend.buffer
  have hnofin : g.flags &&& PKT_FIN = 0 := by
    rw [hflags]
    decide
  have hno := (h.live hs).2
  have hno1 : ∀ g' ∈ s1.sent, g'.flags &&& PKT_FIN = 0 := by
    intro g' hg
    rw [hsent] at hg
    rcases List.mem_append.mp hg with hg | hg
    · exact hno g' hg
    · rw [List.mem_singleton.mp hg]
      exact hnofin
  have hsize1 : s1.txBufferSize ≤ DEFAULT_TX_BUFFER_SIZE := by
    rw [h6]
    exact h.size
  refine ⟨⟨?_, hsize1, ?_, ?_, fun g' hg hfin => absurd (hno1 g' hg) hfin, fun _ => ⟨⟨low, high, hsend1⟩, hno1⟩, ?_,
    hsend1.window hsize1 hno1⟩, hsend1, h2, h1, h7, h8, h4⟩
  · rw [h1]
    exact h.mss
  · rw [h8]
    exact h.bound
  · intro g' hg hne
    rw [hsent] at hg
    rw [h8]
    rcases List.mem_append.mp hg with hg | hg
    · exact h.data g' hg hne
    · rw [List.mem_singleton.mp hg]
      have hoff := hsend.offset
      refine ⟨pos, hseq, ?_, ?_⟩
      · rw [hdata, Ring.slice_length]
        lia
      · rw [hdata, Ring.slice_length, hpos]
        exact hsend.slice hk
  · intro hsyn
    rw [h2] at hsyn
    rw [hsyn] at hs
    rcases hs with hs | hs <;> cases hs

/-- the bytes up to a later place are sent -/
theorem SendOk.advance (h : SendOk iss s) (hs : s.state = .established ∨ s.state = .closeWait)
    (hsend : Sending iss low high s) {n : Nat} (hn : high + n ≤ s.written.length) :
    SendOk iss { s with txHighestSeq := s.txHighestSeq + BitVec.ofNat 32 n } ∧
      Sending iss low (high + n) { s with txHighestSeq := s.txHighestSeq + BitVec.ofNat 32 n } := by
  have hle := hsend.le
  have hnew : Sending iss low (high + n) { s with txHighestSeq := s.txHighestSeq + BitVec.ofNat 32 n } := by
    refine ⟨hsend.winLow, ?_, by omega, hn, hsend.offset, hsend.fits, hsend.buffer⟩
    show s.txHighestSeq + BitVec.ofNat 32 n = _
    rw [hsend.highest, seq_add]
  refine ⟨⟨h.mss, h.size, h.bound, h.data, h.fin, fun _ => ⟨⟨low, _, hnew⟩, (h.live hs).2⟩, fun hsyn => ?_,
    hnew.window h.size (h.live hs).2⟩, hnew⟩
  have hsyn : s.state = .synRcvd := hsyn
  rw [hsyn] at hs
  rcases hs with hs | hs <;> cases hs

/-- **The loop sends what is pending.** -/
theorem pendingLoop_ok {outstanding pending : Nat} (fuel : Nat) : ∀ {s : TcpSocket} {high offset : Nat}, SendOk iss s →
    (s.state = .established ∨ s.state = .closeWait) → Sending iss low high s → outstanding + offset + low = high →
    outstanding + pending = s.txBufferOffset → offset ≤ pending → pending - offset ≤ fuel →
    ∃ s' offset', pendingLoop outstanding pending fuel s offset = some (s', offset') ∧ SendOk iss s' ∧
      s'.state = s.state := by
  induction fuel with
  | zero =>
    intro s high offset h hs hsend hhigh hpend hle hfuel
    unfold pendingLoop
    rw [if_neg (by lia)]
    exact ⟨s, offset, rfl, h, rfl⟩
  | succ fuel ih =>
    intro s high offset h hs hsend hhigh hpend hle hfuel
    unfold pendingLoop
    split
    · rename_i hlt
      have hmss := h.mss
      have hoff := hsend.offset
      obtain ⟨tosend, hto⟩ : ∃ n, n = min s.mss (pending - offset) := ⟨_, rfl⟩
      dsimp only
      rw [← hto, hsend.highest]
      obtain ⟨s1, hs1⟩ : ∃ s1, s1 = tcpSocketSend s (Ring.slice s.txBuffer (outstanding + offset) tosend)
          (PKT_ACK ||| PKT_PSH) (iss + BitVec.ofNat 32 high) := ⟨_, rfl⟩
      obtain ⟨hok, hsend1, hst, -, hoff1, hw, hhi⟩ := sendData_ok h hs hsend (by lia) (by lia) hs1
      rw [← hs1]
      obtain ⟨hok2, hsend2⟩ := hok.advance (hst ▸ hs) hsend1 (n := tosend) (by rw [hw]; lia)
      obtain ⟨s', offset', hrun, hok', hst'⟩ := ih hok2 (hst ▸ hs) hsend2 (by lia)
        (show outstanding + pending = s1.txBufferOffset by rw [hoff1, hpend]) (show offset + tosend ≤ pending by lia)
        (by lia)
      exact ⟨s', offset', hrun, hok', hst'.trans hst⟩
    · exact ⟨s, offset, rfl, h, rfl⟩

/-- a timer is set -/
theorem SendOk.timer (h : SendOk iss s) (t : TcpTimer) : SendOk iss (tcpTimerSet s t) :=
  h.quiet (.of_eq ⟨rfl, rfl, rfl, rfl, rfl, rfl, rfl, rfl⟩) id id

theorem tcpWritePendingData_ok (h : SendOk iss s) (hs : s.state = .established ∨ s.state = .closeWait)
    (hw : tcpWritePendingData s = some s') : SendOk iss s' := by
  obtain ⟨⟨low, high, hsend⟩, -⟩ := h.live hs
  have hout := hsend.outstanding h.size
  have hle := hsend.le
  have hhl := hsend.high_le
  have hoff := hsend.offset
  have hfit := hsend.fits
  have hsize := h.size
  unfold DEFAULT_TX_BUFFER_SIZE at hsize
  have hpend : sub32 s.txBufferOffset (high - low) = s.txBufferOffset - (high - low) := sub32_of_le (by lia) (by lia)
  unfold tcpWritePendingData at hw
  dsimp only at hw
  rw [hout, hpend] at hw
  obtain ⟨s1, offset, hrun, hok, -⟩ := pendingLoop_ok (s.txBufferOffset - (high - low)) h hs hsend
    (show high - low + 0 + low = high by lia)
    (show high - low + (s.txBufferOffset - (high - low)) = s.txBufferOffset by lia) (Nat.zero_le _) (by lia)
  rw [hrun, Option.map_some] at hw
  cases hw
  dsimp only
  split
  · exact hok.timer _
  · exact hok

theorem Carried.append {g : TcpSegment} {stream : List UInt8} (h : Carried iss stream g) (more : List UInt8) :
    Carried iss (stream ++ more) g := by
  obtain ⟨pos, hseq, hlen, hdata⟩ := h
  refine ⟨pos, hseq, ?_, ?_⟩
  · rw [List.length_append]
    lia
  · rw [List.drop_append_of_le_length (by lia), List.take_append_of_le_length (by rw [List.length_drop]; lia)]
    exact hdata

theorem appendBytes_ok (h : SendOk iss s) (hs : s.state = .established ∨ s.state = .closeWait) {buf : List UInt8}
    {n : Nat} (hroom : s.txBufferOffset + n ≤ s.txBufferSize) (hn : n ≤ buf.length)
    (hclean : s.written.length + buf.length ≤ 2 ^ 32) : SendOk iss (appendBytes s buf n) := by
  obtain ⟨⟨low, high, hsend⟩, hno⟩ := h.live hs
  have hoff := hsend.offset
  have hlen : (buf.take n).length = n := by
    rw [List.length_take]
    lia
  have hsend1 : Sending iss low high (appendBytes s buf n) := by
    refine ⟨hsend.winLow, hsend.highest, hsend.le, ?_, ?_, hroom, ?_⟩
    · show high ≤ (s.written ++ buf.take n).length
      rw [List.length_append]
      exact Nat.le_add_right_of_le hsend.high_le
    · show s.txBufferOffset + n + low = (s.written ++ buf.take n).length
      rw [List.length_append, hlen]
      lia
    · show Ring.slice (Ring.put s.txBuffer s.txBufferOffset (fun i => buf.getD i 0) n) 0 (s.txBufferOffset + n) =
        (s.written ++ buf.take n).drop low
      rw [Ring.slice_add, Ring.slice_put_before _ _ _ _ (by lia), Nat.zero_add, Ring.slice_put, slice_getD buf hn,
        hsend.buffer, List.drop_append_of_le_length (by lia)]
  refine ⟨h.mss, h.size, ?_, fun g hg hne => (h.data g hg hne).append _, fun g hg hf => absurd (hno g hg) hf,
    fun _ => ⟨⟨low, high, hsend1⟩, hno⟩, fun hsyn => ?_, hsend1.window h.size hno⟩
  · show (s.written ++ buf.take n).length ≤ 2 ^ 32
    rw [List.length_append, hlen]
    lia
  · have hsyn : s.state = .synRcvd := hsyn
    rw [hsyn] at hs
    rcases hs with hs | hs <;> cases hs

/-- **A pass of `tcp_write`** -/
theorem tcpWrite_ok (h : SendOk iss s) {buf : List UInt8} (hclean : s.written.length + buf.length ≤ 2 ^ 32)
    (hw : tcpWrite s buf = some s') : SendOk iss s' := by
  unfold tcpWrite at hw
  dsimp only at hw
  split at hw
  · cases hw
    exact h
  rename_i hs
  have hs : s.state = .established ∨ s.state = .closeWait := by
    by_contra hno
    exact hs ⟨fun h => hno (.inl h), fun h => hno (.inr h)⟩
  obtain ⟨⟨low, high, hsend⟩, -⟩ := h.live hs
  have hfit := hsend.fits
  have hsize := h.size
  unfold DEFAULT_TX_BUFFER_SIZE at hsize
  have hroom : sub32 s.txBufferSize s.txBufferOffset = s.txBufferSize - s.txBufferOffset := sub32_of_le (by lia) hfit
  rw [hroom] at hw
  split at hw
  · cases hw
    exact h
  have hok := appendBytes_ok h hs (n := min (s.txBufferSize - s.txBufferOffset) buf.length) (by lia)
    (Nat.min_le_right _ _) hclean
  split at hw
  · have hfull : SendOk iss { appendBytes s buf (min (s.txBufferSize - s.txBufferOffset) buf.length) with
        txEvent := false } := hok.quiet (.of_eq ⟨rfl, rfl, rfl, rfl, rfl, rfl, rfl, rfl⟩) id id
    exact tcpWritePendingData_ok hfull hs hw
  · exact tcpWritePendingData_ok hok hs hw

theorem tcpRetransmit_ok (h : SendOk iss s) : SendOk iss (tcpRetransmit s).1 := by
  unfold tcpRetransmit
  dsimp only
  split
  · exact h
  rename_i hs
  have hs : s.state = .established ∨ s.state = .closeWait := by
    by_contra hno
    exact hs ⟨fun h => hno (.inl h), fun h => hno (.inr h)⟩
  split
  · exact h
  obtain ⟨⟨low, high, hsend⟩, -⟩ := h.live hs
  have hout := hsend.outstanding h.size
  have hle := hsend.le
  have hhl := hsend.high_le
  have hoff := hsend.offset
  rw [hout, hsend.winLow]
  exact (sendData_ok h hs hsend (k := 0) (show low = low + 0 by omega) (by omega) rfl).1

/-! ## the end -/

/-- the FIN goes out behind the last byte -/
theorem sendFin_ok (h : SendOk iss s) (hno : ∀ g ∈ s.sent, g.flags &&& PKT_FIN = 0)
    (hlow : s.txWinLow = iss + BitVec.ofNat 32 s.written.length)
    (hlive : ¬ (s.state = .established ∨ s.state = .closeWait)) (hsyn : s.state ≠ .synRcvd) :
    SendOk iss (wakeup (sendFin s)) := by
  obtain ⟨g, hseq, hdata, hflags, hsent, h1, h2, h3, h4, h5, h6, h7, h8⟩ :=
    tcpSocketSend_eq s [] (PKT_ACK ||| PKT_FIN) s.txWinLow
  obtain ⟨s1, hs1⟩ : ∃ s1, s1 = tcpSocketSend s [] (PKT_ACK ||| PKT_FIN) s.txWinLow := ⟨_, rfl⟩
  rw [← hs1] at hsent h1 h2 h3 h4 h5 h6 h7 h8
  have hfin : g.flags &&& PKT_FIN ≠ 0 := by
    rw [hflags]
    decide
  have hnumber : finNumber (s.sent ++ [g]) = 1 := by
    unfold finNumber
    rw [if_pos ⟨g, List.mem_append_right _ (List.mem_singleton_self g), hfin⟩]
  unfold sendFin
  dsimp only
  rw [← hs1]
  unfold wakeup
  refine ⟨?_, ?_, ?_, ?_, ?_, ?_, ?_, ?_⟩
  · show 0 < s1.mss
    rw [h1]
    exact h.mss
  · show s1.txBufferSize ≤ _
    rw [h6]
    exact h.size
  · show s1.written.length ≤ _
    rw [h8]
    exact h.bound
  · show ∀ g' ∈ s1.sent, g'.data ≠ [] → Carried iss s1.written g'
    intro g' hg hne
    rw [hsent] at hg
    rw [h8]
    rcases List.mem_append.mp hg with hg | hg
    · exact h.data g' hg hne
    · rw [List.mem_singleton.mp hg] at hne
      exact absurd hdata hne
  · show ∀ g' ∈ s1.sent, g'.flags &&& PKT_FIN ≠ 0 → g'.sequence = iss + BitVec.ofNat 32 s1.written.length
    intro g' hg hf
    rw [hsent] at hg
    rw [h8]
    rcases List.mem_append.mp hg with hg | hg
    · exact absurd (hno g' hg) hf
    · rw [List.mem_singleton.mp hg, hseq, hlow]
  · show s1.state = .established ∨ s1.state = .closeWait → _
    intro hs
    rw [h2] at hs
    exact absurd hs hlive
  · show s1.state = .synRcvd → _
    intro hs
    rw [h2] at hs
    exact absurd hs hsyn
  · obtain ⟨low, hle, hwin, hbuf, hhi⟩ := h.window
    rw [finNumber_none hno] at hwin
    refine ⟨low, ?_, ?_, ?_, ?_⟩
    · show low ≤ s1.written.length
      rw [h8]
      exact hle
    · show s1.txWinLow + 1 = iss + BitVec.ofNat 32 low + finNumber s1.sent
      rw [h3, hsent, hnumber, hwin]
      exact congrArg (· + 1) (BitVec.add_zero _)
    · show Ring.slice s1.txBuffer 0 s1.txBufferOffset = s1.written.drop low
      rw [h5, h7, h8]
      exact hbuf
    · show (s1.txHighestSeq - (iss + BitVec.ofNat 32 low)).toNat ≤ s1.txBufferOffset ∨
        s1.written = [] ∧ s1.txHighestSeq + 1 = iss
      rw [h4, h7, h8]
      exact hhi

/-- a state is entered from which nothing is sent -/
theorem SendOk.leave (h : SendOk iss s) {st : TcpState} (hlive : ¬ (st = .established ∨ st = .closeWait))
    (hsyn : st ≠ .synRcvd) : SendOk iss { s with state := st } :=
  h.quiet (.of_eq ⟨rfl, rfl, rfl, rfl, rfl, rfl, rfl, rfl⟩) (fun hs => absurd hs hlive) fun hs => absurd hs hsyn

/-- a connection that can send, all of it acknowledged -/
theorem SendOk.acked (h : SendOk iss s) (hs : s.state = .established ∨ s.state = .closeWait)
    (hclean : s.txBufferOffset = 0) : s.txWinLow = iss + BitVec.ofNat 32 s.written.length := by
  obtain ⟨⟨low, high, hsend⟩, -⟩ := h.live hs
  have hoff := hsend.offset
  rw [hclean, Nat.zero_add] at hoff
  rw [hsend.winLow, hoff]

theorem tcpClose_ok (h : SendOk iss s)
    (hclean : s.state = .established ∨ s.state = .closeWait → s.txBufferOffset = 0) : SendOk iss (tcpClose s) := by
  unfold tcpClose
  split
  case h_1 => exact h.quiet (.of_eq ⟨rfl, rfl, rfl, rfl, rfl, rfl, rfl, rfl⟩) id id
  case h_2 =>
    exact h.quiet (.of_eq ⟨rfl, rfl, rfl, rfl, rfl, rfl, rfl, rfl⟩) (fun hs => by rcases hs with hs | hs <;> cases hs)
      (fun hs => by cases hs)
  case h_3 hst =>
    obtain ⟨hw, -, hlow, hno⟩ := h.syn hst
    refine sendFin_ok (h.leave (by simp) (by simp)) hno ?_ (by simp) (by simp)
    show s.txWinLow = iss + BitVec.ofNat 32 s.written.length
    rw [hlow, hw]
    exact (BitVec.add_zero _).symm
  case h_4 hst =>
    have hs : s.state = .established ∨ s.state = .closeWait := .inl hst
    exact sendFin_ok (h.leave (by simp) (by simp)) (h.live hs).2 (h.acked hs (hclean hs)) (by simp) (by simp)
  case h_5 hst =>
    have hs : s.state = .established ∨ s.state = .closeWait := .inr hst
    exact sendFin_ok (h.leave (by simp) (by simp)) (h.live hs).2 (h.acked hs (hclean hs)) (by simp) (by simp)
  case h_6 => exact h

theorem tcpTimeout_ok (h : SendOk iss s) (t : TcpTimer) : SendOk iss (tcpTimeout s t) := by
  have hcancel : SendOk iss (tcpTimerCancel s t) := h.quiet (.of_eq ⟨rfl, rfl, rfl, rfl, rfl, rfl, rfl, rfl⟩) id id
  cases t
  case ackDelay =>
    have hst : (tcpTimeout s .ackDelay).state = s.state := sendAck_state (tcpTimerCancel s .ackDelay)
    exact hcancel.quiet (sendAck_quiet _) (fun hs => hst ▸ hs) fun hs => hst ▸ hs
  case retransmit =>
    unfold tcpTimeout
    dsimp only
    split
    · exact tcpRetransmit_ok hcancel
    · exact (tcpRetransmit_ok hcancel).timer _
  case timeWait => exact hcancel

/-- the peer acknowledges the SYN -/
theorem SendOk.establish (h : SendOk iss s) (hst : s.state = .synRcvd) (winHigh : BitVec 32) :
    SendOk iss { s with txWinHigh := winHigh, txHighestSeq := s.txWinLow, state := .established } := by
  obtain ⟨hw, hoff, hlow, hno⟩ := h.syn hst
  have hsend : Sending iss 0 0 { s with txWinHigh := winHigh, txHighestSeq := s.txWinLow, state := .established } := by
    refine ⟨?_, ?_, le_refl 0, Nat.zero_le _, ?_, ?_, ?_⟩
    · show s.txWinLow = iss + BitVec.ofNat 32 0
      rw [hlow]
      exact (BitVec.add_zero _).symm
    · show s.txWinLow = iss + BitVec.ofNat 32 0
      rw [hlow]
      exact (BitVec.add_zero _).symm
    · show s.txBufferOffset + 0 = s.written.length
      rw [hoff, hw]
      rfl
    · show s.txBufferOffset ≤ s.txBufferSize
      rw [hoff]
      exact Nat.zero_le _
    · show Ring.slice s.txBuffer 0 s.txBufferOffset = s.written.drop 0
      rw [hoff, hw]
      rfl
  exact ⟨h.mss, h.size, h.bound, h.data, h.fin, fun _ => ⟨⟨0, 0, hsend⟩, hno⟩, fun hs => (by cases hs),
    hsend.window h.size hno⟩

/-- a FIN in one of the states after `tcp_close` -/
theorem finWait2_ok (h : SendOk iss s) (p : TcpPacket) : SendOk iss (finWait2 s p) := by
  refine h.quiet (finWait2_quiet s p) (fun hs => ?_) (fun hs => ?_)
  · unfold finWait2 at hs
    split at hs
    · rcases hs with hs | hs <;> cases hs
    · exact hs
  · unfold finWait2 at hs
    split at hs
    · cases hs
    · exact hs

/-- an acknowledgement that a segment may carry -/
theorem ackPart_ok (h : SendOk iss s) (hs : s.state = .established ∨ s.state = .closeWait) (p : TcpPacket) :
    SendOk iss (if p.flags &&& PKT_ACK ≠ 0 then handleAck s p.ackNum p.winSize else s) ∧
      (if p.flags &&& PKT_ACK ≠ 0 then handleAck s p.ackNum p.winSize else s).state = s.state := by
  split
  · exact ⟨handleAck_ok h hs _ _, handleAck_state s _ _⟩
  · exact ⟨h, rfl⟩

/-- a segment in `STATE_ESTABLISHED` -/
theorem establishedInput_ok (h : SendOk iss s) (hst : s.state = .established) (p : TcpPacket) :
    SendOk iss (tcpInput s p) := by
  obtain ⟨s1, hs1⟩ : ∃ s1, s1 = if p.flags &&& PKT_ACK ≠ 0 then handleAck s p.ackNum p.winSize else s := ⟨_, rfl⟩
  obtain ⟨s2, hs2⟩ : ∃ s2, s2 = if p.len > 0 then handleData s1 p else s1 := ⟨_, rfl⟩
  obtain ⟨hok1, hst1⟩ := ackPart_ok h (.inl hst) p
  rw [← hs1] at hok1 hst1
  have hq2 : TxQuiet s1 s2 ∧ s2.state = s1.state := by
    rw [hs2]
    split
    · exact ⟨handleData_quiet s1 p, handleData_state s1 p⟩
    · exact ⟨.refl s1, rfl⟩
  have hest : s1.state = .established := hst1.trans hst
  have hok2 : SendOk iss s2 := hok1.quiet hq2.1 (fun _ => .inl hest) fun hs => by
    rw [hq2.2, hest] at hs
    cases hs
  unfold tcpInput
  dsimp only
  split
  · split
    · exact h.quiet (tcpRemoteClose_quiet s) (fun _ => .inl hst) fun hs => by
        rw [tcpRemoteClose_state] at hs
        cases hs
    · exact h
  rw [hst]
  dsimp only
  rw [← hs1, ← hs2]
  generalize (p.seqNum + if p.len > 0 then BitVec.ofNat 32 (p.len - 1) else 0) = highest
  split
  · have hq : TxQuiet s2 { takeFin s2 with state := .closeWait, rxEvent := true } :=
      (takeFin_quiet s2).trans (.of_eq ⟨rfl, rfl, rfl, rfl, rfl, rfl, rfl, rfl⟩)
    exact hok2.quiet hq (fun _ => .inl (hq2.2.trans hest)) fun hs => by cases hs
  · exact hok2

/-- **A segment**, in any state -/
theorem tcpInput_ok (h : SendOk iss s) (p : TcpPacket) : SendOk iss (tcpInput s p) := by
  by_cases hest : s.state = .established
  · exact establishedInput_ok h hest p
  have hremote : SendOk iss (tcpRemoteClose s) := by
    refine h.quiet (tcpRemoteClose_quiet s) (fun hs => ?_) fun hs => ?_ <;> rw [tcpRemoteClose_state] at hs
    · rcases hs with hs | hs <;> cases hs
    · cases hs
  have hreset : SendOk iss (sendReset s p) :=
    h.quiet (sendReset_quiet s p) (fun hs => sendReset_state s p ▸ hs) fun hs => sendReset_state s p ▸ hs
  unfold tcpInput
  dsimp only
  split
  · split
    · exact hremote
    · exact h
  split
  case h_1 => exact hreset
  case h_2 hst =>
    split
    · exact hreset
    · split
      · split
        · exact hreset
        · exact h.establish hst _
      · exact hreset
  case h_3 hst => exact absurd hst hest
  case h_4 hst =>
    obtain ⟨hok, hst1⟩ := ackPart_ok h (.inr hst) p
    split
    · exact hok.quiet (sendAck_quiet _) (fun hs => sendAck_state _ ▸ hs) fun hs => sendAck_state _ ▸ hs
    · exact hok
  case h_5 =>
    split
    · exact hremote
    · exact h
  case h_6 =>
    split
    · exact finWait2_ok (h.leave (by simp) (by simp)) p
    · split
      · exact h.quiet ((takeFin_quiet s).trans (.of_eq ⟨rfl, rfl, rfl, rfl, rfl, rfl, rfl, rfl⟩))
          (fun hs => by rcases hs with hs | hs <;> cases hs) fun hs => by cases hs
      · exact h
  case h_7 => exact finWait2_ok h p
  case h_8 =>
    split
    · have hw : SendOk iss { s with state := .timeWait } := h.leave (by simp) (by simp)
      exact hw.timer _
    · exact h
  all_goals exact h

/-- **Every step** -/
theorem tcpStep_ok (h : SendOk iss s) {op : TcpOp} (hclean : TcpClean s op) (hrun : tcpStep s op = some s') :
    SendOk iss s' := by
  cases op
  case input p =>
    cases hrun
    exact tcpInput_ok h p
  case read len =>
    simp only [tcpStep] at hrun
    split at hrun
    · obtain ⟨hq, hst⟩ := tcpRead_quiet hrun
      exact h.quiet hq (fun hs => hst ▸ hs) fun hs => hst ▸ hs
    · cases hrun
  case write buf =>
    simp only [tcpStep] at hrun
    split at hrun
    · exact tcpWrite_ok h hclean hrun
    · cases hrun
  case close =>
    cases hrun
    exact tcpClose_ok h hclean
  case timeout t =>
    simp only [tcpStep] at hrun
    split at hrun
    · cases hrun
      exact tcpTimeout_ok h t
    · cases hrun

/-- the answer to the SYN -/
theorem acceptSocket_ok (rand seq : BitVec 32) (rxMem txMem : Nat → UInt8) :
    SendOk (rand + 1) (acceptSocket rand seq rxMem txMem) := by
  unfold acceptSocket
  dsimp only
  obtain ⟨s0, hs0⟩ : ∃ s0 : TcpSocket, s0 = {
      state := .synRcvd, mss := DEFAULT_MSS, rxWinSize := DEFAULT_RX_WINDOW_SIZE, rxWinLow := seq + 1,
      rxWinHigh := seq + 1 + BitVec.ofNat 32 DEFAULT_RX_WINDOW_SIZE - 1,
      rxBuffer := Cbuf.cbufInitializeEtc DEFAULT_RX_WINDOW_SIZE rxMem, rxEvent := false, rxFullMssCount := 0,
      txWinLow := rand, txWinHigh := rand, txHighestSeq := rand, txBuffer := txMem,
      txBufferSize := DEFAULT_TX_BUFFER_SIZE, txBufferOffset := 0, txEvent := true, timers := fun _ => false,
      written := [], given := [], sent := [], copies := [], finSeen := false } := ⟨_, rfl⟩
  rw [← hs0]
  obtain ⟨g, -, hdata, hflags, hsent, h1, h2, h3, h4, -, h6, h7, h8⟩ :=
    tcpSocketSend_eq s0 [] (PKT_ACK ||| PKT_SYN) rand
  generalize tcpSocketSend s0 [] (PKT_ACK ||| PKT_SYN) rand = s1 at hsent h1 h2 h3 h4 h6 h7 h8 ⊢
  rw [hs0] at hsent h1 h2 h3 h4 h6 h7 h8
  have hsent : s1.sent = [g] := hsent
  have hmss : s1.mss = DEFAULT_MSS := h1
  have hstate : s1.state = .synRcvd := h2
  have hlow : s1.txWinLow = rand := h3
  have hhigh : s1.txHighestSeq = rand := h4
  have hsize : s1.txBufferSize = DEFAULT_TX_BUFFER_SIZE := h6
  have hoff : s1.txBufferOffset = 0 := h7
  have hw : s1.written = [] := h8
  have hno : ∀ g' ∈ s1.sent, g'.flags &&& PKT_FIN = 0 := by
    intro g' hg
    rw [hsent] at hg
    rw [List.mem_singleton.mp hg, hflags]
    decide
  have hnext : s1.txWinLow + 1 = rand + 1 := by rw [hlow]
  refine ⟨?_, ?_, ?_, ?_, ?_, ?_, ?_, ?_⟩
  · show 0 < s1.mss
    rw [hmss]
    decide
  · show s1.txBufferSize ≤ _
    rw [hsize]
  · show s1.written.length ≤ 2 ^ 32
    rw [hw]
    exact Nat.zero_le _
  · show ∀ g' ∈ s1.sent, g'.data ≠ [] → Carried _ s1.written g'
    intro g' hg hne
    rw [hsent] at hg
    rw [List.mem_singleton.mp hg] at hne
    exact absurd hdata hne
  · show ∀ g' ∈ s1.sent, g'.flags &&& PKT_FIN ≠ 0 → _
    exact fun g' hg hf => absurd (hno g' hg) hf
  · show s1.state = .established ∨ s1.state = .closeWait → _
    rw [hstate]
    rintro (hs | hs) <;> cases hs
  · exact fun _ => ⟨hw, hoff, hnext, hno⟩
  · refine ⟨0, Nat.zero_le _, ?_, ?_, .inr ⟨hw, ?_⟩⟩
    · show s1.txWinLow + 1 = rand + 1 + BitVec.ofNat 32 0 + finNumber s1.sent
      rw [finNumber_none hno, hnext]
      exact ((BitVec.add_zero _).trans (BitVec.add_zero _)).symm
    · show Ring.slice s1.txBuffer 0 s1.txBufferOffset = s1.written.drop 0
      rw [hoff, hw]
      rfl
    · show s1.txHighestSeq + 1 = rand + 1
      rw [hhigh]

theorem SendOk.sent (h : SendOk iss s) : TcpSent iss s := by
  refine ⟨fun hs => ?_, h.window, h.data, fun g hg g' hg' i j hi hj hseq => ?_, h.fin⟩
  · obtain ⟨⟨low, high, hsend⟩, -⟩ := h.live hs
    exact hsend.highest_le h.size
  · obtain ⟨a, ha, hlena, hdata⟩ := h.data g hg (List.ne_nil_of_length_pos (by lia))
    obtain ⟨b, hb, hlenb, hdata'⟩ := h.data g' hg' (List.ne_nil_of_length_pos (by lia))
    have hbound := h.bound
    -- one place in the stream, and its byte
    have hplace : a + i = b + j := by
      rw [ha, hb, seq_add, seq_add] at hseq
      exact seq_inj (by lia) (by lia) hseq
    rw [hdata, hdata', List.getElem?_take_of_lt hi, List.getElem?_take_of_lt hj, List.getElem?_drop, List.getElem?_drop,
      hplace]

end

/-- **What a connection sends.**  In a run in which `tcp_close` finds every byte acknowledged and no more than `2 ^ 32`
bytes are written, the window stands over the buffer, the buffer is the stream from `tx_win_low` on, a segment carries
the bytes of its sequence number, a sequence number is only of one byte, and the FIN follows the last. -/
theorem tcp_sends {rand seq : BitVec 32} {s : TcpSocket} (h : (tcpSys rand seq).Run TcpClean s) :
    TcpSent (rand + 1) s := by
  refine SendOk.sent (h.invariant (fun s hs => ?_) fun s op s' hs hclean hrun => tcpStep_ok hs hclean hrun)
  obtain ⟨rxMem, txMem, rfl⟩ := hs
  exact acceptSocket_ok rand seq rxMem txMem

/-! ## a byte -/

instance (s : TcpSocket) : (op : TcpOp) → Decidable (TcpClean s op)
  | .close => inferInstanceAs (Decidable (s.state = .established ∨ s.state = .closeWait → s.txBufferOffset = 0))
  | .write buf => inferInstanceAs (Decidable (s.written.length + buf.length ≤ 2 ^ 32))
  | .input _ => .isTrue trivial
  | .read _ => .isTrue trivial
  | .timeout _ => .isTrue trivial

/-- a connection that answered the SYN 0 with the SYN 0 -/
def answered : TcpSocket := acceptSocket 0 0 (fun _ => 0) fun _ => 0

/-- the peer acknowledges up to a number -/
def ackTo (ackNum : BitVec 32) : TcpOp := .input ⟨1, ackNum, PKT_ACK, 8192, fun _ => 0, 0⟩

theorem answered_run (G : TcpSocket → TcpOp → Prop) : (tcpSys 0 0).Run G answered := .init ⟨_, _, rfl⟩

/-- a byte is written, acknowledged, and then the FIN sent -/
theorem tcp_sends_byte : ∃ s, TcpSent 1 s ∧ s.written = [7] ∧ s.state = .finWait1 := by
  have hsome : ((Machine.execIf TcpClean tcpStep answered [ackTo 1, .write [7], ackTo 2, .close]).map fun s =>
      (s.written, s.state)) = some ([7], .finWait1) := by decide
  obtain ⟨s, hs, hp⟩ := Option.map_eq_some_iff.mp hsome
  exact ⟨s, tcp_sends ((answered_run TcpClean).execIf _ hs), congrArg Prod.fst hp, congrArg Prod.snd hp⟩

/-- **A byte that is not acknowledged at `tcp_close`.**  The FIN has its sequence number. -/
theorem tcp_sends_fails : ¬ ∀ (rand seq : BitVec 32) (s : TcpSocket), (tcpSys rand seq).Reach s →
    TcpSent (rand + 1) s := by
  intro hall
  have hsome : ((Machine.exec tcpStep answered [ackTo 1, .write [7], .close]).map fun s =>
      (s.written, s.sent.map fun g => (g.sequence, g.flags, g.data))) =
      some ([7], [(0, 18, []), (1, 24, [7]), (1, 17, [])]) := by decide
  obtain ⟨s, hs, hp⟩ := Option.map_eq_some_iff.mp hsome
  have hsent := hall 0 0 s ((answered_run _).exec _ hs)
  have hw : s.written = [7] := congrArg Prod.fst hp
  have hsegs : (s.sent.map fun g => (g.sequence, g.flags, g.data)) = [(0, 18, []), (1, 24, [7]), (1, 17, [])] :=
    congrArg Prod.snd hp
  have hmem : ((1 : BitVec 32), 17, ([] : List UInt8)) ∈ s.sent.map fun g => (g.sequence, g.flags, g.data) := by
    rw [hsegs]
    simp
  obtain ⟨g, hg, he⟩ := List.mem_map.mp hmem
  have hflags : g.flags = 17 := congrArg (fun x => x.2.1) he
  have hseq : g.sequence = 1 := congrArg (fun x => x.1) he
  have hfin := hsent.fin g hg (by rw [hflags]; decide)
  rw [hseq, hw] at hfin
  exact absurd hfin (by decide)

end LkHv.Net.Tcp
