import LkHv.Event.Cbuf
import LkHv.Lib.Machine
import LkHv.Lib.Serial

/-!
# A TCP connection (`lib/minip/tcp.c`)

One socket from the SYN it answers on; its lock is taken and given back by each of the functions, and its references are
left out.  What `tcp_write` took, what `tcp_read` gave, the segments sent and where received bytes were copied from are
kept with it.

* `handleData`, `tcpSocketSend`, `sendAck`, `handleAck`, `tcpWritePendingData`, `tcpRetransmit`
* `tcpInput`               a segment, once the socket is found and locked;
* `tcpRead`, `tcpWrite`    one pass of each loop;
* `tcpStep`                the segments, the calls and the timers, in any order.
-/

namespace LkHv.Net.Tcp

inductive TcpState
  | closed
  | listen
  | synSent
  | synRcvd
  | established
  | closeWait
  | lastAck
  | closing
  | finWait1
  | finWait2
  | timeWait
  deriving DecidableEq

def PKT_FIN : Nat := 1
def PKT_SYN : Nat := 2
def PKT_RST : Nat := 4
def PKT_PSH : Nat := 8
def PKT_ACK : Nat := 16

def DEFAULT_MSS : Nat := 1460
def DEFAULT_RX_WINDOW_SIZE : Nat := 8192
def DEFAULT_TX_BUFFER_SIZE : Nat := 8192

/-- `SEQUENCE_GTE` -/
def sequenceGte (a b : BitVec 32) : Prop := 0 ≤ (a - b).toInt
/-- `SEQUENCE_LTE` -/
def sequenceLte (a b : BitVec 32) : Prop := (a - b).toInt ≤ 0
/-- `SEQUENCE_GT` -/
def sequenceGt (a b : BitVec 32) : Prop := 0 < (a - b).toInt

instance (a b : BitVec 32) : Decidable (sequenceGte a b) := inferInstanceAs (Decidable (0 ≤ (a - b).toInt))
instance (a b : BitVec 32) : Decidable (sequenceLte a b) := inferInstanceAs (Decidable ((a - b).toInt ≤ 0))
instance (a b : BitVec 32) : Decidable (sequenceGt a b) := inferInstanceAs (Decidable (0 < (a - b).toInt))

/-- a segment that is received: its payload is `len` bytes of the memory `data` -/
structure TcpPacket where
  seqNum : BitVec 32
  ackNum : BitVec 32
  flags : Nat
  winSize : Nat
  data : Nat → UInt8
  len : Nat

/-- a segment that is sent -/
structure TcpSegment where
  sequence : BitVec 32
  ack : BitVec 32
  flags : Nat
  winSize : Nat
  data : List UInt8

inductive TcpTimer
  | ackDelay
  | retransmit
  | timeWait
  deriving DecidableEq

/-- bytes copied to the receive buffer: where in the payload they begin, how many, and the length of the payload -/
structure TcpCopy where
  offset : Nat
  copyLen : Nat
  len : Nat

/-- `tcp_socket_t`; then what the socket did so far -/
structure TcpSocket where
  state : TcpState
  mss : Nat
  rxWinSize : Nat
  rxWinLow : BitVec 32
  rxWinHigh : BitVec 32
  rxBuffer : Cbuf
  rxEvent : Bool
  rxFullMssCount : Nat
  txWinLow : BitVec 32
  txWinHigh : BitVec 32
  txHighestSeq : BitVec 32
  txBuffer : Nat → UInt8
  txBufferSize : Nat
  txBufferOffset : Nat
  txEvent : Bool
  timers : TcpTimer → Bool
  /-- what `tcp_write` took -/
  written : List UInt8
  /-- what `tcp_read` gave -/
  given : List UInt8
  sent : List TcpSegment
  copies : List TcpCopy
  /-- a FIN was acted on -/
  finSeen : Bool

def tcpTimerSet (s : TcpSocket) (t : TcpTimer) : TcpSocket := { s with timers := Function.update s.timers t true }

def tcpTimerCancel (s : TcpSocket) (t : TcpTimer) : TcpSocket := { s with timers := Function.update s.timers t false }

/-- `tcp_send` -/
def tcpSend (s : TcpSocket) (seg : TcpSegment) : TcpSocket := { s with sent := s.sent ++ [seg] }

/-! ## sending -/

def tcpSocketSend (s : TcpSocket) (data : List UInt8) (flags : Nat) (sequence : BitVec 32) : TcpSocket :=
  -- the new right edge of the window, which does not move backwards
  let rxWinHigh := s.rxWinLow + BitVec.ofNat 32 s.rxWinSize - BitVec.ofNat 32 s.rxBuffer.cbufSpaceUsed - 1
  let s := if sequenceGte rxWinHigh s.rxWinHigh then { s with rxWinHigh := rxWinHigh } else s
  let winSize := (s.rxWinHigh - s.rxWinLow).toNat % 2 ^ 16
  let s := if flags &&& PKT_ACK ≠ 0 then tcpTimerCancel s .ackDelay else s
  tcpSend s ⟨sequence, if flags &&& PKT_ACK ≠ 0 then s.rxWinLow else 0, flags, winSize, data⟩

def sendAck (s : TcpSocket) : TcpSocket :=
  if s.state ≠ .established ∧ s.state ≠ .closeWait ∧ s.state ≠ .finWait2 then s
  else tcpSocketSend s [] PKT_ACK s.txWinLow

def handleAck (s : TcpSocket) (sequence : BitVec 32) (winSize : Nat) : TcpSocket :=
  if sequenceLte sequence s.txWinLow then s
  else if sequenceGt sequence s.txHighestSeq then s
  else
    let ackedLen := (sequence - s.txWinLow).toNat
    let s := { s with
      -- `memmove` to the start
      txBuffer := Ring.put s.txBuffer 0 (fun i => s.txBuffer (ackedLen + i)) (sub32 s.txBufferOffset ackedLen)
      txBufferOffset := sub32 s.txBufferOffset ackedLen
      txWinLow := s.txWinLow + BitVec.ofNat 32 ackedLen
      txWinHigh := s.txWinLow + BitVec.ofNat 32 ackedLen + BitVec.ofNat 32 winSize }
    let s := if s.txWinLow = s.txHighestSeq then tcpTimerCancel s .retransmit else tcpTimerSet s .retransmit
    { s with txEvent := true }

/-- the loop of `tcp_write_pending_data`, each pass of which sends something -/
def pendingLoop (outstanding pending : Nat) : Nat → TcpSocket → Nat → Option (TcpSocket × Nat)
  | 0, s, offset => if offset < pending then none else some (s, offset)
  | fuel + 1, s, offset =>
    if offset < pending then
      let tosend := min s.mss (pending - offset)
      let s := tcpSocketSend s (Ring.slice s.txBuffer (outstanding + offset) tosend) (PKT_ACK ||| PKT_PSH) s.txHighestSeq
      pendingLoop outstanding pending fuel { s with txHighestSeq := s.txHighestSeq + BitVec.ofNat 32 tosend }
        (offset + tosend)
    else some (s, offset)

def tcpWritePendingData (s : TcpSocket) : Option TcpSocket :=
  let outstanding := (s.txHighestSeq - s.txWinLow).toNat
  let pending := sub32 s.txBufferOffset outstanding
  (pendingLoop outstanding pending pending s 0).map fun (s, offset) =>
    if offset > 0 then tcpTimerSet s .retransmit else s

/-- `tcp_retransmit`, and what it returns -/
def tcpRetransmit (s : TcpSocket) : TcpSocket × Nat :=
  if s.state ≠ .established ∧ s.state ≠ .closeWait then (s, 0)
  else
    let outstanding := (s.txHighestSeq - s.txWinLow).toNat
    if outstanding = 0 then (s, 0)
    else
      let tosend := min s.mss outstanding
      (tcpSocketSend s (Ring.slice s.txBuffer 0 tosend) (PKT_ACK ||| PKT_PSH) s.txWinLow, tosend)

/-! ## receiving -/

/-- bytes of the payload put into the receive buffer -/
def storeData (s : TcpSocket) (p : TcpPacket) (offset copyLen : Nat) : TcpSocket :=
  { s with
    rxWinLow := s.rxWinLow + BitVec.ofNat 32 copyLen
    rxBuffer := (s.rxBuffer.cbufWrite (some fun i => p.data (offset + i)) copyLen).1
    rxEvent := true
    rxFullMssCount := if copyLen ≥ s.mss then s.rxFullMssCount + 1 else 0
    copies := s.copies ++ [⟨offset, copyLen, p.len⟩] }

/-- at once after two full segments or with the window half way, else later -/
def ackData (s : TcpSocket) : TcpSocket :=
  if s.rxFullMssCount ≥ 2 ∨
      (s.rxWinLow + BitVec.ofNat 32 s.rxWinSize - s.rxWinHigh).toInt > ((s.rxWinSize / 2 : Nat) : Int) then
    { sendAck s with rxFullMssCount := 0 }
  else tcpTimerSet s .ackDelay

def handleData (s : TcpSocket) (p : TcpPacket) : TcpSocket :=
  let sequenceTop := p.seqNum + BitVec.ofNat 32 p.len - 1
  if sequenceLte p.seqNum s.rxWinLow ∧ sequenceGte sequenceTop s.rxWinLow then
    -- `size_t` of an unsigned difference
    let offset := (p.seqNum - s.rxWinLow).toNat
    let copyLen := min (s.rxWinHigh - s.rxWinLow).toNat (sub64 p.len offset)
    ackData (storeData s p offset copyLen)
  else sendAck s

def tcpRemoteClose (s : TcpSocket) : TcpSocket :=
  if s.state = .closed then s
  else
    let s := tcpTimerCancel (tcpTimerCancel { s with state := .closed } .retransmit) .ackDelay
    { s with rxEvent := true, txEvent := true }

/-- `send_reset` -/
def sendReset (s : TcpSocket) (p : TcpPacket) : TcpSocket :=
  if p.flags &&& PKT_RST = 0 then tcpSend s ⟨p.ackNum, 0, PKT_RST, 0, []⟩ else s

/-- the FIN takes a sequence number, and is acknowledged -/
def takeFin (s : TcpSocket) : TcpSocket := sendAck { s with rxWinLow := s.rxWinLow + 1, finSeen := true }

/-- the label `fin_wait_2` -/
def finWait2 (s : TcpSocket) (p : TcpPacket) : TcpSocket :=
  if p.flags &&& PKT_FIN ≠ 0 then tcpTimerSet { takeFin s with state := .timeWait } .timeWait else s

/-- `tcp_input`, once the socket is found and locked -/
def tcpInput (s : TcpSocket) (p : TcpPacket) : TcpSocket :=
  let highestSequence := p.seqNum + if p.len > 0 then BitVec.ofNat 32 (p.len - 1) else 0
  let isAck := p.flags &&& PKT_ACK ≠ 0
  let isFin := p.flags &&& PKT_FIN ≠ 0
  if p.flags &&& PKT_RST ≠ 0 then
    if s.state ≠ .closed ∧ s.state ≠ .listen then tcpRemoteClose s else s
  else
    match s.state with
    | .closed => sendReset s p
    | .synRcvd =>
      if p.flags &&& PKT_SYN ≠ 0 then sendReset s p
      else if isAck then
        if p.ackNum ≠ s.txWinLow then sendReset s p
        else { s with
          txWinHigh := s.txWinLow + BitVec.ofNat 32 p.winSize
          txHighestSeq := s.txWinLow
          state := .established }
      else sendReset s p
    | .established =>
      let s := if isAck then handleAck s p.ackNum p.winSize else s
      let s := if p.len > 0 then handleData s p else s
      if isFin ∧ sequenceGte s.rxWinLow highestSequence then
        { takeFin s with state := .closeWait, rxEvent := true }
      else s
    | .closeWait =>
      let s := if isAck then handleAck s p.ackNum p.winSize else s
      if isFin then sendAck s else s
    | .lastAck => if isAck then tcpRemoteClose s else s
    | .finWait1 =>
      if isAck then finWait2 { s with state := .finWait2 } p
      else if isFin then { takeFin s with state := .closing }
      else s
    | .finWait2 => finWait2 s p
    | .closing => if isAck then tcpTimerSet { s with state := .timeWait } .timeWait else s
    | .timeWait => s
    -- a listening socket is no connection, and nothing makes one with `STATE_SYN_SENT`
    | .listen => s
    | .synSent => s

/-! ## the calls and the timers -/

/-- one pass of `tcp_read` behind the wait -/
def tcpRead (s : TcpSocket) (len : Nat) : Option TcpSocket :=
  (s.rxBuffer.cbufRead (some fun _ => 0) len).map fun (c, dst, ret) =>
    let s := { s with rxBuffer := c, given := s.given ++ Ring.slice (dst.getD fun _ => 0) 0 ret }
    if ret = 0 then
      if s.state ≠ .established then s else { s with rxEvent := false }
    else
      let remainingBytes := c.cbufSpaceUsed
      let s := if s.state = .established ∧ remainingBytes = 0 then { s with rxEvent := false } else s
      let newRxWinSize := sub32 s.rxWinSize remainingBytes
      if newRxWinSize ≥ s.mss ∧ (s.rxWinHigh - s.rxWinLow).toNat < s.mss then sendAck s else s

/-- bytes of the caller's put behind the others -/
def appendBytes (s : TcpSocket) (buf : List UInt8) (toCopy : Nat) : TcpSocket :=
  { s with
    txBuffer := Ring.put s.txBuffer s.txBufferOffset (fun i => buf.getD i 0) toCopy
    txBufferOffset := s.txBufferOffset + toCopy
    written := s.written ++ buf.take toCopy }

/-- one pass of `tcp_write` behind the wait, with the bytes that are left -/
def tcpWrite (s : TcpSocket) (buf : List UInt8) : Option TcpSocket :=
  if s.state ≠ .established ∧ s.state ≠ .closeWait then some s
  else
    let toCopy := min (sub32 s.txBufferSize s.txBufferOffset) buf.length
    if toCopy = 0 then some s
    else
      let s := appendBytes s buf toCopy
      tcpWritePendingData (if s.txBufferOffset = s.txBufferSize then { s with txEvent := false } else s)

/-- the FIN -/
def sendFin (s : TcpSocket) : TcpSocket :=
  let s := tcpSocketSend s [] (PKT_ACK ||| PKT_FIN) s.txWinLow
  { s with txWinLow := s.txWinLow + 1 }

def wakeup (s : TcpSocket) : TcpSocket := { s with rxEvent := true, txEvent := true }

def tcpClose (s : TcpSocket) : TcpSocket :=
  match s.state with
  | .closed => wakeup (tcpTimerCancel (tcpTimerCancel s .ackDelay) .retransmit)
  | .listen => wakeup { tcpTimerCancel (tcpTimerCancel s .ackDelay) .retransmit with state := .closed }
  | .synRcvd => wakeup (sendFin { s with state := .finWait1 })
  | .established => wakeup (sendFin { s with state := .finWait1 })
  | .closeWait => wakeup (sendFin { s with state := .lastAck })
  | _ => s

/-- `handle_retransmit_timeout`, `handle_delayed_ack_timeout`, `handle_time_wait_timeout` -/
def tcpTimeout (s : TcpSocket) : TcpTimer → TcpSocket
  | .retransmit =>
    let r := tcpRetransmit (tcpTimerCancel s .retransmit)
    if r.2 = 0 then r.1 else tcpTimerSet r.1 .retransmit
  | .ackDelay => sendAck (tcpTimerCancel s .ackDelay)
  | .timeWait => tcpTimerCancel s .timeWait

inductive TcpOp
  | input (p : TcpPacket)
  | read (len : Nat)
  | write (buf : List UInt8)
  | close
  | timeout (t : TcpTimer)

/-- `event_wait` waits for the flag; a timer goes off when it was set -/
def tcpStep (s : TcpSocket) : TcpOp → Option TcpSocket
  | .input p => some (tcpInput s p)
  | .read len => if s.rxEvent then tcpRead s len else none
  | .write buf => if s.txEvent then tcpWrite s buf else none
  | .close => some (tcpClose s)
  | .timeout t => if s.timers t then some (tcpTimeout s t) else none

/-- the socket that `tcp_input` makes for a SYN: `create_tcp_socket` and the answer; `rand` is the random number, `seq`
the sequence number of the SYN, and the buffers are memory as `malloc` gives it -/
def acceptSocket (rand seq : BitVec 32) (rxMem txMem : Nat → UInt8) : TcpSocket :=
  let s : TcpSocket := {
    state := .synRcvd
    mss := DEFAULT_MSS
    rxWinSize := DEFAULT_RX_WINDOW_SIZE
    rxWinLow := seq + 1
    rxWinHigh := seq + 1 + BitVec.ofNat 32 DEFAULT_RX_WINDOW_SIZE - 1
    rxBuffer := Cbuf.cbufInitializeEtc DEFAULT_RX_WINDOW_SIZE rxMem
    rxEvent := false
    rxFullMssCount := 0
    txWinLow := rand
    txWinHigh := rand
    txHighestSeq := rand
    txBuffer := txMem
    txBufferSize := DEFAULT_TX_BUFFER_SIZE
    txBufferOffset := 0
    txEvent := true
    timers := fun _ => false
    written := []
    given := []
    sent := []
    copies := []
    finSeen := false }
  let s := tcpSocketSend s [] (PKT_ACK ||| PKT_SYN) s.txWinLow
  { s with txWinLow := s.txWinLow + 1 }

end LkHv.Net.Tcp
