import LkHv.Lib.Blocks
import LkHv.Lib.Machine
import LkHv.Net.Udp

/-!
# The TFTP server (`lib/tftp/tftp.c`)

A job, a socket is a number, and a number is not given out twice.  The record of a socket says what went through it:
the blocks the client got, the calls of the client with null data, the packets sent and how often it was closed.
Allocations, `udp_open` and the client's answer are part of each event.

* `udpWrqCallback`, `udpSvcCallback`, `tftpSetWriteClient`   the source's;
* `tftpSys`         any sequence of registrations and packets, the peer of a transfer sending blocks of its file;
* `TftpServed`      blocks in order and once, one end for each transfer, listeners for the transfers that run;
* `TftpWhen`        the condition;
* `tftp_serves`     under it transfers are served;
* `tftp_serves_fails`   not so when the client refuses the last block.
-/

namespace LkHv.Net
open LkHv.Blocks

def TFTP_OPCODE_WRQ : UInt16 := 2
def TFTP_OPCODE_DATA : UInt16 := 3

def TFTP_ERROR_ACCESS : UInt16 := 2
def TFTP_ERROR_FULL : UInt16 := 3
def TFTP_ERROR_ILLEGAL_OP : UInt16 := 4
def TFTP_ERROR_UNKNOWN_XFER : UInt16 := 4
def TFTP_ERROR_EXISTS : UInt16 := 6

def TFTP_PORT : UInt16 := 69

/-- `RD_U16` -/
def rdU16 (data : List UInt8) : UInt16 := (data.getD 1 0).toUInt16 * 256 + (data.getD 0 0).toUInt16

/-- `htons`, `ntohs` -/
def htons (x : UInt16) : UInt16 := (x <<< 8) ||| (x >>> 8)

/-- `tftp_job_t`; the socket is null when no transfer is in progress -/
structure TftpJob where
  fileName : List UInt8
  socket : Option Nat
  srcAddr : UInt32
  srcPort : UInt16
  listenPort : UInt16
  pktCount : UInt16

inductive UdpCallback
  | udpSvcCallback
  | udpWrqCallback
  | other
  deriving DecidableEq

/-- what went through a socket, and the job of its transfer if one was accepted -/
structure Transfer where
  job : Option Nat
  delivered : List (List UInt8)
  nulls : Nat
  closes : Nat
  acks : List UInt16
  errors : List UInt16
  cancelled : Bool

def Transfer.unused : Transfer := ⟨none, [], 0, 0, [], [], false⟩

/-- `udp_list`, the jobs by their addresses, `tftp_list`, `next_port`; `last` is the last transfer of a job, and
`nullCalls` counts the packets that were dispatched to null -/
structure Tftp where
  udpList : List (UdpListener UdpCallback)
  jobs : Nat → TftpJob
  tftpList : List Nat
  made : Nat
  opened : Nat
  last : Nat → Nat
  nextPort : UInt16
  transfers : Nat → Transfer
  nullCalls : Nat

def Tftp.setJob (s : Tftp) (j : Nat) (job : TftpJob) : Tftp := { s with jobs := Function.update s.jobs j job }

def Tftp.note (s : Tftp) (t : Nat) (f : Transfer → Transfer) : Tftp :=
  { s with transfers := Function.update s.transfers t (f (s.transfers t)) }

def sendAck (s : Tftp) (t : Nat) (count : UInt16) : Tftp := s.note t fun x => { x with acks := x.acks ++ [count] }

def sendError (s : Tftp) (t : Nat) (code : UInt16) : Tftp := s.note t fun x => { x with errors := x.errors ++ [code] }

/-- `udp_close`, which refuses null -/
def udpClose (s : Tftp) : Option Nat → Tftp
  | none => s
  | some t => s.note t fun x => { x with closes := x.closes + 1 }

/-- `end_transfer`; `room` is for the `malloc` of `udp_listen` -/
def endTransfer (s : Tftp) (j : Nat) (doCallback room : Bool) : Tftp :=
  let s := { s with udpList := (udpListen s.udpList (s.jobs j).listenPort none 0 room).1 }
  let s := udpClose s (s.jobs j).socket
  let s := s.setJob j { s.jobs j with socket := none, srcAddr := 0 }
  if doCallback then s.note (s.last j) fun x => { x with nulls := x.nulls + 1 }
  else s.note (s.last j) fun x => { x with cancelled := true }

/-- a packet as `udp_input` gets it, and what follows its data in the buffer -/
structure UdpPacket where
  dstPort : UInt16
  srcAddr : UInt32
  srcPort : UInt16
  data : List UInt8
  after : List UInt8

/-- `udp_wrq_callback`; `ret` is what the client's callback returns -/
def udpWrqCallback (s : Tftp) (p : UdpPacket) (j : Nat) (room : Bool) (ret : Int) : Tftp :=
  let s := s.setJob j { s.jobs j with pktCount := (s.jobs j).pktCount + 1 }
  if p.data.length < 4 then s
  else
    match (s.jobs j).socket with
    | none => s
    | some t =>
      if p.srcAddr ≠ (s.jobs j).srcAddr ∨ p.srcPort ≠ (s.jobs j).srcPort then
        endTransfer (sendError s t TFTP_ERROR_UNKNOWN_XFER) j true room
      else if rdU16 p.data ≠ htons TFTP_OPCODE_DATA then
        endTransfer (sendError s t TFTP_ERROR_ILLEGAL_OP) j true room
      else
        let s := sendAck s t (s.jobs j).pktCount
        let s := s.note (s.last j) fun x => { x with delivered := x.delivered ++ [p.data.drop 4] }
        let s := if ret < 0 then endTransfer (sendError s t TFTP_ERROR_FULL) j true room else s
        if p.data.length ≠ 516 then endTransfer s j true room else s

/-- `get_job_by_name`; the name in the packet ends with the first zero behind it -/
def getJobByName (s : Tftp) (fileName : List UInt8) : Option Nat :=
  s.tftpList.find? fun j => ((s.jobs j).fileName ++ [0]).isPrefixOf fileName

/-- `udp_svc_callback`; `opened` says whether `udp_open` succeeds -/
def udpSvcCallback (s : Tftp) (p : UdpPacket) (opened room : Bool) : Tftp :=
  if ¬ opened then s
  else
    let t := s.opened
    let s := { s with opened := t + 1 }
    if htons (rdU16 (p.data ++ p.after)) ≠ TFTP_OPCODE_WRQ then udpClose (sendError s t TFTP_ERROR_ACCESS) (some t)
    else
      match getJobByName s ((p.data ++ p.after).drop 2) with
      | none => udpClose (sendError s t TFTP_ERROR_UNKNOWN_XFER) (some t)
      | some j =>
        if (s.jobs j).socket.isSome then udpClose (sendError s t TFTP_ERROR_EXISTS) (some t)
        else
          let s := s.setJob j { s.jobs j with
            socket := some t
            srcAddr := p.srcAddr
            srcPort := p.srcPort
            pktCount := 0
            listenPort := s.nextPort }
          let s := { s.note t fun x => { x with job := some j } with last := Function.update s.last j t }
          let r := udpListen s.udpList s.nextPort (some .udpWrqCallback) j room
          let s := { s with udpList := r.1 }
          if r.2 < 0 then s
          else { sendAck s t 0 with nextPort := s.nextPort + 1 }

/-- `tftp_set_write_client`; `room` is for its `malloc` and that of `udp_listen` -/
def tftpSetWriteClient (s : Tftp) (fileName : List UInt8) (room : Bool) : Tftp :=
  match s.tftpList.find? fun j => fileName = (s.jobs j).fileName with
  | some j =>
    let s := { s with tftpList := s.tftpList.erase j }
    if (s.jobs j).socket.isSome then endTransfer s j false room else s
  | none =>
    if ¬ room then s
    else { s.setJob s.made ⟨fileName, none, 0, 0, 0, 0⟩ with
      tftpList := s.tftpList ++ [s.made]
      made := s.made + 1 }

inductive TftpOp
  | setWriteClient (fileName : List UInt8) (room : Bool)
  | listen (port : UInt16) (arg : Nat) (room : Bool)
  | input (p : UdpPacket) (opened room : Bool) (ret : Int)

def tftpStep (s : Tftp) : TftpOp → Tftp
  | .setWriteClient fileName room => tftpSetWriteClient s fileName room
  | .listen port arg room => { s with udpList := (udpListen s.udpList port (some .other) arg room).1 }
  | .input p opened room ret =>
    match udpInput s.udpList p.dstPort with
    | none => s
    | some l =>
      match l.callback with
      | none => { s with nullCalls := s.nullCalls + 1 }
      | some .udpSvcCallback => udpSvcCallback s p opened room
      | some .udpWrqCallback => udpWrqCallback s p l.arg room ret
      | some .other => s

/-- after `tftp_server_init` -/
def tftpServerInit : Tftp where
  udpList := (udpListen [] TFTP_PORT (some .udpSvcCallback) 0 true).1
  jobs _ := ⟨[], none, 0, 0, 0, 0⟩
  tftpList := []
  made := 0
  opened := 0
  last _ := 0
  nextPort := 2224
  transfers _ := .unused
  nullCalls := 0

/-! ## the peers -/

/-- the packet of a block: `[3][count][data]` -/
def dataPacket (count : Nat) (payload : List UInt8) : List UInt8 :=
  [0, 3, UInt8.ofNat (count / 256), UInt8.ofNat count] ++ payload

/-- the packet carries block `k` of the file -/
def Carries (file : List UInt8) (k : Nat) (data : List UInt8) : Prop :=
  k < blockCount 512 file ∧ data = dataPacket (k + 1) (block 512 file k)

/-- the packet is data of the transfer `t` that `j` runs -/
def IsData (s : Tftp) (p : UdpPacket) (j t : Nat) : Prop :=
  udpInput s.udpList p.dstPort = some ⟨p.dstPort, some .udpWrqCallback, j⟩ ∧ (s.jobs j).socket = some t ∧
    4 ≤ p.data.length ∧ p.srcAddr = (s.jobs j).srcAddr ∧ p.srcPort = (s.jobs j).srcPort ∧
    rdU16 p.data = htons TFTP_OPCODE_DATA

/-- what the source of a transfer sends as data are blocks of its file -/
def TftpPeer (file : Nat → List UInt8) (s : Tftp) : TftpOp → Prop
  | .input p _ _ _ => ∀ j t, IsData s p j t → ∃ k, Carries (file t) k p.data
  | _ => True

def tftpSys (file : Nat → List UInt8) : Machine Tftp TftpOp where
  init s := s = tftpServerInit
  step s op s' := TftpPeer file s op ∧ s' = tftpStep s op

/-- the packet asks for a transfer that `udp_svc_callback` accepts -/
def IsRequest (s : Tftp) (p : UdpPacket) (j : Nat) : Prop :=
  (∃ arg, udpInput s.udpList p.dstPort = some ⟨p.dstPort, some .udpSvcCallback, arg⟩) ∧
    htons (rdU16 (p.data ++ p.after)) = TFTP_OPCODE_WRQ ∧
    getJobByName s ((p.data ++ p.after).drop 2) = some j ∧ (s.jobs j).socket = none

/-- data are the block that comes next, the client does not refuse the last block, and the port of a new transfer is
free and there is memory for its listener -/
def TftpWhen (file : Nat → List UInt8) (s : Tftp) : TftpOp → Prop
  | .input p opened room ret =>
    (∀ j t, IsData s p j t → Carries (file t) (s.transfers t).delivered.length p.data ∧
      (ret < 0 → p.data.length = 516)) ∧
    (∀ j, opened = true → IsRequest s p j → room = true ∧ ∀ e ∈ s.udpList, e.port ≠ s.nextPort)
  | _ => True

/-! ## what is served -/

/-- a transfer that is in progress: the first blocks, not all of them -/
structure Transfer.Running (file : List UInt8) (x : Transfer) : Prop where
  delivered : x.delivered = blocks 512 file x.delivered.length
  lt : x.delivered.length < blockCount 512 file
  nulls : x.nulls = 0
  closes : x.closes = 0
  errors : x.errors = []
  cancelled : x.cancelled = false

/-- a transfer that ended: the first blocks, and all of them unless it was given up; one end -/
structure Transfer.Ended (file : List UInt8) (x : Transfer) : Prop where
  delivered : x.delivered = blocks 512 file x.delivered.length
  all : x.errors = [] → x.cancelled = false → x.delivered.flatten = file
  closes : x.closes = 1
  nulls : x.nulls = if x.cancelled then 0 else 1

/-- each transfer is served, and each listener of a transfer is that of one in progress -/
structure TftpServed (file : Nat → List UInt8) (s : Tftp) : Prop where
  running : ∀ j t, (s.jobs j).socket = some t →
    (s.transfers t).job = some j ∧ (s.transfers t).Running (file t) ∧
      udpInput s.udpList (s.jobs j).listenPort = some ⟨(s.jobs j).listenPort, some .udpWrqCallback, j⟩
  ended : ∀ j t, (s.transfers t).job = some j → (s.jobs j).socket ≠ some t → (s.transfers t).Ended (file t)
  listener : ∀ e ∈ s.udpList, e.callback = some .udpWrqCallback →
    (s.jobs e.arg).socket.isSome ∧ (s.jobs e.arg).listenPort = e.port
  live : ∀ e ∈ s.udpList, e.callback ≠ none
  nullCalls : s.nullCalls = 0

/-! ## the invariant -/

/-- the lists and the jobs agree -/
structure TftpShape (s : Tftp) : Prop where
  listening : Listening s.udpList
  listener : ∀ e ∈ s.udpList, e.callback = some .udpWrqCallback →
    (s.jobs e.arg).socket.isSome ∧ (s.jobs e.arg).listenPort = e.port
  job : ∀ j t, (s.jobs j).socket = some t → t < s.opened ∧ s.last j = t ∧ (s.transfers t).job = some j ∧
    ⟨(s.jobs j).listenPort, some .udpWrqCallback, j⟩ ∈ s.udpList
  listed : ∀ j ∈ s.tftpList, j < s.made
  unmade : ∀ j, s.made ≤ j → (s.jobs j).socket = none
  fresh : ∀ t, s.opened ≤ t → s.transfers t = .unused
  nullCalls : s.nullCalls = 0

/-- the records of the transfers -/
def TftpLogs (file : Nat → List UInt8) (s : Tftp) : Prop :=
  ∀ j t, (s.transfers t).job = some j →
    ((s.jobs j).socket = some t → (s.transfers t).Running (file t)) ∧
    ((s.jobs j).socket ≠ some t → (s.transfers t).Ended (file t))

section
variable {file : Nat → List UInt8} {s s' : Tftp} {j t : Nat} {p : UdpPacket} {room cb opened : Bool} {ret : Int}

theorem tftpServerInit_shape : TftpShape tftpServerInit where
  listening := Listening.nil.listen _ _ _ _
  listener e he hcb := by
    cases List.mem_singleton.mp he
    cases hcb
  job j t hs := by cases hs
  listed j hj := by cases hj
  unmade _ _ := rfl
  fresh _ _ := rfl
  nullCalls := rfl

theorem tftpServerInit_logs : TftpLogs file tftpServerInit := fun j t h => by cases h

theorem Tftp.note_self (s : Tftp) (t : Nat) (f : Transfer → Transfer) :
    (s.note t f).transfers t = f (s.transfers t) := Function.update_self ..

/-- a note that leaves the job of a transfer alone -/
theorem TftpShape.note (h : TftpShape s) (ht : t < s.opened) {f : Transfer → Transfer}
    (hf : (f (s.transfers t)).job = (s.transfers t).job) : TftpShape (s.note t f) := by
  refine { h with job := fun i u hu => ?_, fresh := fun u hu => ?_ }
  · obtain ⟨hlt, hlast, hjob, hmem⟩ := h.job i u hu
    refine ⟨hlt, hlast, ?_, hmem⟩
    show (Function.update s.transfers t _ u).job = some i
    by_cases e : u = t
    · subst e
      rw [Function.update_self, hf, hjob]
    · rw [Function.update_of_ne e, hjob]
  · have hne : u ≠ t := fun e => by
      subst e
      exact absurd ht (Nat.not_lt.mpr hu)
    show Function.update s.transfers t _ u = _
    rw [Function.update_of_ne hne, h.fresh u hu]

/-- a job whose socket and port stay -/
theorem TftpShape.setJob (h : TftpShape s) {job : TftpJob} (hsock : job.socket = (s.jobs j).socket)
    (hport : job.listenPort = (s.jobs j).listenPort) : TftpShape (s.setJob j job) := by
  have hs : ∀ i, (Function.update s.jobs j job i).socket = (s.jobs i).socket := fun i => by
    by_cases e : i = j
    · subst e
      rw [Function.update_self, hsock]
    · rw [Function.update_of_ne e]
  have hp : ∀ i, (Function.update s.jobs j job i).listenPort = (s.jobs i).listenPort := fun i => by
    by_cases e : i = j
    · subst e
      rw [Function.update_self, hport]
    · rw [Function.update_of_ne e]
  refine { h with listener := fun e he hcb => ?_, job := fun i u hu => ?_, unmade := fun i hi => ?_ }
  · show (Function.update s.jobs j job e.arg).socket.isSome ∧ (Function.update s.jobs j job e.arg).listenPort = e.port
    rw [hs, hp]
    exact h.listener e he hcb
  · have hu : (Function.update s.jobs j job i).socket = some u := hu
    rw [hs] at hu
    show _ ∧ _ ∧ _ ∧ ⟨(Function.update s.jobs j job i).listenPort, some .udpWrqCallback, i⟩ ∈ s.udpList
    rw [hp]
    exact h.job i u hu
  · show (Function.update s.jobs j job i).socket = none
    rw [hs]
    exact h.unmade i hi

/-! ## the end of a transfer -/

/-- the record of a transfer that is ended -/
def Transfer.fin (x : Transfer) (cb : Bool) : Transfer :=
  if cb then { x with closes := x.closes + 1, nulls := x.nulls + 1 }
  else { x with closes := x.closes + 1, cancelled := true }

theorem Transfer.fin_job (x : Transfer) (cb : Bool) : (x.fin cb).job = x.job := by cases cb <;> rfl

theorem endTransfer_eq (h : TftpShape s) (hs : (s.jobs j).socket = some t) (cb room : Bool) :
    endTransfer s j cb room = { s with
      udpList := s.udpList.filter fun e => e.port ≠ (s.jobs j).listenPort
      jobs := Function.update s.jobs j { s.jobs j with socket := none, srcAddr := 0 }
      transfers := Function.update s.transfers t ((s.transfers t).fin cb) } := by
  obtain ⟨-, hlast, -, hmem⟩ := h.job j t hs
  have hrem : udpListen s.udpList (s.jobs j).listenPort none 0 room =
      (s.udpList.filter fun e => e.port ≠ (s.jobs j).listenPort, 0) := udpListen_remove h.listening hmem
  unfold endTransfer udpClose
  dsimp only
  rw [hrem, hs]
  cases cb with
  | false =>
    rw [if_neg (by decide)]
    dsimp only [Tftp.note, Tftp.setJob]
    rw [hlast, Function.update_self, Function.update_idem]
    rfl
  | true =>
    rw [if_pos rfl]
    dsimp only [Tftp.note, Tftp.setJob]
    rw [hlast, Function.update_self, Function.update_idem]
    rfl

theorem endTransfer_shape (h : TftpShape s) (hs : (s.jobs j).socket = some t) (cb room : Bool) :
    TftpShape (endTransfer s j cb room) := by
  obtain ⟨hlt, -, -, hmem⟩ := h.job j t hs
  have hself : ∀ i, i ≠ j → Function.update s.jobs j { s.jobs j with socket := none, srcAddr := 0 } i = s.jobs i :=
    fun i hi => Function.update_of_ne hi ..
  rw [endTransfer_eq h hs]
  refine ⟨h.listening.filter _, fun e he hcb => ?_, fun i u hu => ?_, h.listed, fun i hi => ?_, fun u hu => ?_,
    h.nullCalls⟩
  · obtain ⟨he, hne⟩ := List.mem_filter.mp he
    have hne : e.port ≠ (s.jobs j).listenPort := by simpa using hne
    obtain ⟨hsome, hport⟩ := h.listener e he hcb
    have hi : e.arg ≠ j := fun harg => hne (by rw [← hport, harg])
    dsimp only
    rw [hself _ hi]
    exact ⟨hsome, hport⟩
  · have hi : i ≠ j := fun e => by
      subst e
      dsimp only at hu
      rw [Function.update_self] at hu
      cases hu
    dsimp only at hu ⊢
    rw [hself _ hi] at hu ⊢
    obtain ⟨hlt', hlast', hjob', hmem'⟩ := h.job i u hu
    refine ⟨hlt', hlast', ?_, List.mem_filter.mpr ⟨hmem', ?_⟩⟩
    · by_cases e : u = t
      · subst e
        rw [Function.update_self, Transfer.fin_job, hjob']
      · rw [Function.update_of_ne e, hjob']
    · -- two jobs have different ports, because a port has one listener
      have hne : (s.jobs i).listenPort ≠ (s.jobs j).listenPort := fun hp => by
        have heq := h.listening.eq hmem' hmem hp
        rw [UdpListener.mk.injEq] at heq
        exact hi heq.2.2
      simpa using hne
  · dsimp only
    by_cases e : i = j
    · subst e
      rw [Function.update_self]
    · rw [hself _ e]
      exact h.unmade i hi
  · have hne : u ≠ t := fun e => by
      subst e
      exact absurd hlt (Nat.not_lt.mpr hu)
    dsimp only
    rw [Function.update_of_ne hne, h.fresh u hu]

/-- only the transfer that the job `j` runs is touched -/
theorem TftpLogs.edit (h : TftpLogs file s) (hs : (s.jobs j).socket = some t)
    (hother : ∀ u, u ≠ t → s'.transfers u = s.transfers u)
    (hjobs : ∀ i, i ≠ j → (s'.jobs i).socket = (s.jobs i).socket) (hjob : (s'.transfers t).job = some j)
    (hnow : (s'.jobs j).socket = some t ∧ (s'.transfers t).Running (file t) ∨
      (s'.jobs j).socket = none ∧ (s'.transfers t).Ended (file t)) : TftpLogs file s' := by
  intro i u hu
  by_cases e : u = t
  · subst e
    cases hjob.symm.trans hu
    rcases hnow with ⟨hsock, hrun⟩ | ⟨hsock, hend⟩
    · exact ⟨fun _ => hrun, fun hne => absurd hsock hne⟩
    · refine ⟨fun hsome => ?_, fun _ => hend⟩
      cases hsock.symm.trans hsome
  · rw [hother u e] at hu ⊢
    obtain ⟨hrun, hend⟩ := h i u hu
    by_cases ei : i = j
    · subst ei
      refine ⟨fun hsome => ?_, fun _ => hend fun hsome => e ?_⟩
      · rcases hnow with ⟨hsock, -⟩ | ⟨hsock, -⟩
        · cases hsock.symm.trans hsome
          exact absurd rfl e
        · cases hsock.symm.trans hsome
      · cases hs.symm.trans hsome
        rfl
    · rw [hjobs i ei]
      exact ⟨hrun, hend⟩

/-! ## one packet of a transfer -/

/-- so far the job `j` still runs `t`, and nothing else was touched -/
structure Within (s : Tftp) (j t : Nat) (s' : Tftp) : Prop where
  shape : TftpShape s'
  sock : (s'.jobs j).socket = some t
  other : ∀ u, u ≠ t → s'.transfers u = s.transfers u
  jobs : ∀ i, i ≠ j → (s'.jobs i).socket = (s.jobs i).socket

theorem Within.refl (h : TftpShape s) (hs : (s.jobs j).socket = some t) : Within s j t s :=
  ⟨h, hs, fun _ _ => rfl, fun _ _ => rfl⟩

theorem Within.last (h : Within s j t s') : s'.last j = t := (h.shape.job j t h.sock).2.1

theorem Within.note (h : Within s j t s') {f : Transfer → Transfer}
    (hf : (f (s'.transfers t)).job = (s'.transfers t).job) : Within s j t (s'.note t f) :=
  ⟨h.shape.note (h.shape.job j t h.sock).1 hf, h.sock, fun u hu => (Function.update_of_ne hu ..).trans (h.other u hu),
    h.jobs⟩

theorem Within.setJob (h : Within s j t s') {job : TftpJob} (hsock : job.socket = (s'.jobs j).socket)
    (hport : job.listenPort = (s'.jobs j).listenPort) : Within s j t (s'.setJob j job) := by
  refine ⟨h.shape.setJob hsock hport, ?_, h.other, fun i hi => ?_⟩
  · show (Function.update s'.jobs j job j).socket = some t
    rw [Function.update_self, hsock, h.sock]
  · show (Function.update s'.jobs j job i).socket = _
    rw [Function.update_of_ne hi, h.jobs i hi]

/-- the transfer goes on -/
theorem Within.logs (h : Within s j t s') (hl : TftpLogs file s) (hs : (s.jobs j).socket = some t)
    (hrun : (s'.transfers t).Running (file t)) : TftpLogs file s' :=
  hl.edit hs h.other h.jobs (h.shape.job j t h.sock).2.2.1 (.inl ⟨h.sock, hrun⟩)

/-- the transfer ends -/
theorem Within.finish (h : Within s j t s') (hl : TftpLogs file s) (hs : (s.jobs j).socket = some t)
    (hend : ((s'.transfers t).fin cb).Ended (file t)) :
    TftpShape (endTransfer s' j cb room) ∧ TftpLogs file (endTransfer s' j cb room) := by
  refine ⟨endTransfer_shape h.shape h.sock cb room, ?_⟩
  rw [endTransfer_eq h.shape h.sock]
  apply hl.edit hs
  · intro u hu
    dsimp only
    rw [Function.update_of_ne hu, h.other u hu]
  · intro i hi
    dsimp only
    rw [Function.update_of_ne hi, h.jobs i hi]
  · dsimp only
    rw [Function.update_self, Transfer.fin_job, (h.shape.job j t h.sock).2.2.1]
  · right
    dsimp only
    rw [Function.update_self, Function.update_self]
    exact ⟨rfl, hend⟩

/-- a transfer that is given up -/
theorem Transfer.Running.abort {f : List UInt8} {x : Transfer} (h : x.Running f) (code : UInt16) :
    (({ x with errors := x.errors ++ [code] } : Transfer).fin true).Ended f where
  delivered := h.delivered
  all hnone := by
    have hnone : x.errors ++ [code] = [] := hnone
    cases (List.append_eq_nil_iff.mp hnone).2
  closes := by
    show x.closes + 1 = 1
    rw [h.closes]
  nulls := by
    show x.nulls + 1 = if x.cancelled then 0 else 1
    rw [h.nulls, h.cancelled]
    rfl

theorem Transfer.Running.cancel {f : List UInt8} {x : Transfer} (h : x.Running f) : (x.fin false).Ended f where
  delivered := h.delivered
  all _ hc := by cases hc
  closes := by
    show x.closes + 1 = 1
    rw [h.closes]
  nulls := h.nulls

/-- the record when the next block was taken -/
def Transfer.took (x : Transfer) (count : UInt16) (payload : List UInt8) : Transfer :=
  { x with acks := x.acks ++ [count], delivered := x.delivered ++ [payload] }

theorem Transfer.Running.took_blocks {f : List UInt8} {x : Transfer} (h : x.Running f) (count : UInt16) :
    (x.took count (block 512 f x.delivered.length)).delivered = blocks 512 f (x.delivered.length + 1) := by
  show x.delivered ++ _ = _
  rw [blocks_succ, ← h.delivered]

/-- a full block is not the last one -/
theorem Transfer.Running.next {f : List UInt8} {x : Transfer} (h : x.Running f) (count : UInt16)
    (hfull : (block 512 f x.delivered.length).length = 512) :
    (x.took count (block 512 f x.delivered.length)).Running f := by
  have hlen : (x.took count (block 512 f x.delivered.length)).delivered.length = x.delivered.length + 1 := by
    rw [h.took_blocks, blocks_length]
  refine ⟨by rw [hlen, h.took_blocks], ?_, h.nulls, h.closes, h.errors, h.cancelled⟩
  rw [hlen]
  exact (block_length_eq_iff (by decide)).mp hfull

/-- the last block ends the transfer -/
theorem Transfer.Running.complete {f : List UInt8} {x : Transfer} (h : x.Running f) (count : UInt16)
    (hlast : (block 512 f x.delivered.length).length ≠ 512) :
    ((x.took count (block 512 f x.delivered.length)).fin true).Ended f := by
  have hd := h.took_blocks count
  have hcount : x.delivered.length + 1 = blockCount 512 f := by
    have hlt := h.lt
    have hnot : ¬ x.delivered.length + 1 < blockCount 512 f := fun hlt =>
      hlast ((block_length_eq_iff (by decide)).mpr hlt)
    lia
  refine ⟨?_, fun _ _ => ?_, ?_, ?_⟩
  · show (x.took count _).delivered = blocks 512 f (x.took count _).delivered.length
    rw [hd, blocks_length]
  · show (x.took count _).delivered.flatten = f
    rw [hd, hcount, flatten_blocks_all (by decide)]
  · show x.closes + 1 = 1
    rw [h.closes]
  · show x.nulls + 1 = if x.cancelled then 0 else 1
    rw [h.nulls, h.cancelled]
    rfl

/-- the packet is counted first -/
theorem count_within (h : TftpShape s) (hs : (s.jobs j).socket = some t) :
    ∃ s1, s1 = s.setJob j { s.jobs j with pktCount := (s.jobs j).pktCount + 1 } ∧ Within s j t s1 ∧
      s1.transfers t = s.transfers t ∧ s1.jobs j = { s.jobs j with pktCount := (s.jobs j).pktCount + 1 } :=
  ⟨_, rfl, (Within.refl h hs).setJob rfl rfl, rfl, Function.update_self ..⟩

theorem udpWrqCallback_ok (h : TftpShape s) (hl : TftpLogs file s) (hs : (s.jobs j).socket = some t)
    (hwhen : 4 ≤ p.data.length → p.srcAddr = (s.jobs j).srcAddr → p.srcPort = (s.jobs j).srcPort →
      rdU16 p.data = htons TFTP_OPCODE_DATA →
      Carries (file t) (s.transfers t).delivered.length p.data ∧ (ret < 0 → p.data.length = 516)) :
    TftpShape (udpWrqCallback s p j room ret) ∧ TftpLogs file (udpWrqCallback s p j room ret) := by
  have hrun := (hl j t (h.job j t hs).2.2.1).1 hs
  obtain ⟨s1, hs1, hw1, htr, hjob⟩ := count_within h hs
  unfold udpWrqCallback
  dsimp only
  rw [← hs1]
  split
  · exact ⟨hw1.shape, hw1.logs hl hs (by rw [htr]; exact hrun)⟩
  rename_i hlen
  rw [hw1.sock]
  dsimp only
  have habort : ∀ code, TftpShape (endTransfer (sendError s1 t code) j true room) ∧
      TftpLogs file (endTransfer (sendError s1 t code) j true room) := fun code => by
    apply Within.finish (hw1.note rfl) hl hs
    rw [Tftp.note_self, htr]
    exact hrun.abort code
  split
  · exact habort _
  rename_i hsrc
  split
  · exact habort _
  rename_i hop
  rw [hjob, not_or, not_not, not_not] at hsrc
  obtain ⟨⟨-, hdata⟩, hret⟩ := hwhen (by omega) hsrc.1 hsrc.2 (not_not.mp hop)
  have hdrop : p.data.drop 4 = block 512 (file t) (s.transfers t).delivered.length := by
    rw [hdata]
    rfl
  have hsize : p.data.length = (p.data.drop 4).length + 4 := by
    rw [List.length_drop]
    omega
  -- the block goes to the client
  obtain ⟨s2, hs2⟩ : ∃ s2, s2 = sendAck s1 t (s1.jobs j).pktCount := ⟨_, rfl⟩
  have hw2 : Within s j t s2 := by
    rw [hs2]
    exact hw1.note rfl
  rw [← hs2, hw2.last]
  obtain ⟨s3, hs3⟩ : ∃ s3, s3 = s2.note t fun x => { x with delivered := x.delivered ++ [p.data.drop 4] } := ⟨_, rfl⟩
  have hw3 : Within s j t s3 := by
    rw [hs3]
    exact hw2.note rfl
  have htr3 : s3.transfers t =
      (s.transfers t).took (s1.jobs j).pktCount (block 512 (file t) (s.transfers t).delivered.length) := by
    rw [hs3, hs2, ← hdrop, ← htr, Tftp.note_self]
    unfold sendAck
    rw [Tftp.note_self]
    rfl
  rw [← hs3]
  by_cases hfull : p.data.length = 516
  · have hblock : (block 512 (file t) (s.transfers t).delivered.length).length = 512 := by
      rw [← hdrop]
      omega
    rw [if_neg (not_not.mpr hfull)]
    split
    · apply Within.finish (hw3.note rfl) hl hs
      rw [Tftp.note_self, htr3]
      exact (hrun.next _ hblock).abort _
    · exact ⟨hw3.shape, hw3.logs hl hs (by rw [htr3]; exact hrun.next _ hblock)⟩
  · have hblock : (block 512 (file t) (s.transfers t).delivered.length).length ≠ 512 := by
      rw [← hdrop]
      omega
    rw [if_neg fun hr => hfull (hret hr), if_pos hfull]
    apply Within.finish hw3 hl hs
    rw [htr3]
    exact hrun.complete _ hblock

/-! ## requests and registrations -/

theorem TftpLogs.note_none (h : TftpLogs file s) (ht : (s.transfers t).job = none) {f : Transfer → Transfer}
    (hf : (f (s.transfers t)).job = (s.transfers t).job) : TftpLogs file (s.note t f) := by
  intro i u hu
  by_cases e : u = t
  · subst e
    rw [Tftp.note_self, hf, ht] at hu
    cases hu
  · have htr : (s.note t f).transfers u = s.transfers u := Function.update_of_ne e ..
    rw [htr] at hu ⊢
    exact h i u hu

theorem TftpShape.open (h : TftpShape s) : TftpShape { s with opened := s.opened + 1 } :=
  { h with
    job := fun i u hu => ⟨Nat.lt_succ_of_lt (h.job i u hu).1, (h.job i u hu).2⟩
    fresh := fun u hu => h.fresh u (Nat.le_of_succ_le hu) }

/-- a request that is refused -/
theorem refuse_ok (h : TftpShape s) (hl : TftpLogs file s) (code : UInt16) :
    TftpShape (udpClose (sendError { s with opened := s.opened + 1 } s.opened code) (some s.opened)) ∧
      TftpLogs file (udpClose (sendError { s with opened := s.opened + 1 } s.opened code) (some s.opened)) := by
  have hnone : (s.transfers s.opened).job = none := by
    rw [h.fresh _ (Nat.le_refl _)]
    rfl
  have herr : TftpShape (sendError { s with opened := s.opened + 1 } s.opened code) :=
    h.open.note (Nat.lt_succ_self _) rfl
  unfold udpClose
  dsimp only
  refine ⟨herr.note (Nat.lt_succ_self _) rfl, ?_⟩
  have hlogs : TftpLogs file { s with opened := s.opened + 1 } := hl
  apply (hlogs.note_none hnone rfl).note_none _ rfl
  show (Function.update s.transfers s.opened _ s.opened).job = none
  rw [Function.update_self]
  exact hnone

/-- the record of a transfer that was just accepted -/
theorem running_start (f : List UInt8) (j : Nat) (acks : List UInt16) :
    Transfer.Running f { Transfer.unused with job := some j, acks := acks } :=
  ⟨rfl, Nat.succ_pos _, rfl, rfl, rfl, rfl⟩

theorem udpSvcCallback_ok (h : TftpShape s) (hl : TftpLogs file s)
    (hwhen : ∀ j, opened = true → htons (rdU16 (p.data ++ p.after)) = TFTP_OPCODE_WRQ →
      getJobByName s ((p.data ++ p.after).drop 2) = some j → (s.jobs j).socket = none →
        room = true ∧ ∀ e ∈ s.udpList, e.port ≠ s.nextPort) :
    TftpShape (udpSvcCallback s p opened room) ∧ TftpLogs file (udpSvcCallback s p opened room) := by
  unfold udpSvcCallback
  dsimp only
  split
  · exact ⟨h, hl⟩
  rename_i hopen
  split
  · exact refuse_ok h hl _
  rename_i hop
  have hname : getJobByName { s with opened := s.opened + 1 } ((p.data ++ p.after).drop 2) =
      getJobByName s ((p.data ++ p.after).drop 2) := rfl
  rw [hname]
  cases hfind : getJobByName s ((p.data ++ p.after).drop 2) with
  | none => exact refuse_ok h hl _
  | some j =>
    dsimp only
    split
    · exact refuse_ok h hl _
    rename_i hbusy
    have hnone : (s.jobs j).socket = none := by simpa using hbusy
    obtain ⟨hroom, hfree⟩ := hwhen j (not_not.mp hopen) (not_not.mp hop) hfind hnone
    have hmade : j < s.made := h.listed j (List.mem_of_find?_eq_some hfind)
    have hadd : udpListen s.udpList s.nextPort (some .udpWrqCallback) j room =
        (s.udpList ++ [⟨s.nextPort, some .udpWrqCallback, j⟩], 0) := by
      rw [hroom, udpListen_add hfree]
    split
    · rename_i hbad
      have hbad : (udpListen s.udpList s.nextPort (some .udpWrqCallback) j room).2 < 0 := hbad
      rw [hadd] at hbad
      exact absurd hbad (Int.lt_irrefl 0)
    dsimp only [Tftp.note, Tftp.setJob, sendAck]
    rw [hadd]
    dsimp only
    rw [Function.update_self, Function.update_idem, h.fresh _ (Nat.le_refl _)]
    refine ⟨⟨h.listening.append hfree, fun e he hcb => ?_, fun i u hu => ?_, h.listed, fun i hi => ?_, fun u hu => ?_,
      h.nullCalls⟩, fun i u hu => ?_⟩ <;> dsimp only at *
    · rcases List.mem_append.mp he with he | he
      · obtain ⟨hsome, hport⟩ := h.listener e he hcb
        have hne : e.arg ≠ j := fun harg => by
          rw [harg, hnone] at hsome
          cases hsome
        rw [Function.update_of_ne hne]
        exact ⟨hsome, hport⟩
      · cases List.mem_singleton.mp he
        rw [Function.update_self]
        exact ⟨rfl, rfl⟩
    · by_cases e : i = j
      · subst e
        rw [Function.update_self] at hu ⊢
        cases hu
        rw [Function.update_self, Function.update_self]
        exact ⟨Nat.lt_succ_self _, rfl, rfl, List.mem_append_right _ (.head _)⟩
      · rw [Function.update_of_ne e] at hu ⊢
        obtain ⟨hlt, hlast, hjob, hmem⟩ := h.job i u hu
        rw [Function.update_of_ne e, Function.update_of_ne (Nat.ne_of_lt hlt)]
        exact ⟨Nat.lt_succ_of_lt hlt, hlast, hjob, List.mem_append_left _ hmem⟩
    · have hne : i ≠ j := fun e => by
        subst e
        exact absurd hmade (Nat.not_lt.mpr hi)
      rw [Function.update_of_ne hne]
      exact h.unmade i hi
    · rw [Function.update_of_ne (Nat.ne_of_gt hu)]
      exact h.fresh u (Nat.le_of_succ_le hu)
    · by_cases e : u = s.opened
      · subst e
        rw [Function.update_self] at hu ⊢
        cases hu
        rw [Function.update_self]
        exact ⟨fun _ => running_start _ _ _, fun hne => absurd rfl hne⟩
      · rw [Function.update_of_ne e] at hu ⊢
        obtain ⟨hrun, hend⟩ := hl i u hu
        by_cases ei : i = j
        · subst ei
          rw [Function.update_self]
          refine ⟨fun hsome => absurd (Option.some.inj hsome).symm e, fun _ => hend ?_⟩
          rw [hnone]
          exact fun hn => by cases hn
        · rw [Function.update_of_ne ei]
          exact ⟨hrun, hend⟩

theorem tftpSetWriteClient_ok (h : TftpShape s) (hl : TftpLogs file s) (fileName : List UInt8) (room : Bool) :
    TftpShape (tftpSetWriteClient s fileName room) ∧ TftpLogs file (tftpSetWriteClient s fileName room) := by
  unfold tftpSetWriteClient
  split
  · rename_i j hfind
    have hshape : TftpShape { s with tftpList := s.tftpList.erase j } :=
      { h with listed := fun i hi => h.listed i (List.mem_of_mem_erase hi) }
    dsimp only
    split
    · rename_i hsome
      obtain ⟨t, ht⟩ := Option.isSome_iff_exists.mp hsome
      have hrun := (hl j t (h.job j t ht).2.2.1).1 ht
      exact (Within.mk hshape ht (fun _ _ => rfl) fun _ _ => rfl).finish hl ht hrun.cancel
    · exact ⟨hshape, hl⟩
  · split
    · exact ⟨h, hl⟩
    have hnone := h.unmade s.made (Nat.le_refl _)
    have hold : ∀ i u, (s.jobs i).socket = some u → i ≠ s.made := fun i u hu e => by
      rw [e, hnone] at hu
      cases hu
    have hsock : ∀ i, (Function.update s.jobs s.made ⟨fileName, none, 0, 0, 0, 0⟩ i).socket = (s.jobs i).socket := by
      intro i
      by_cases e : i = s.made
      · rw [e, Function.update_self, hnone]
      · rw [Function.update_of_ne e]
    refine ⟨⟨h.listening, fun e he hcb => ?_, fun i u hu => ?_, fun i hi => ?_, fun i hi => ?_, h.fresh,
      h.nullCalls⟩, fun i u hu => ?_⟩ <;> dsimp only [Tftp.setJob] at *
    · obtain ⟨hsome, hport⟩ := h.listener e he hcb
      obtain ⟨u, hu⟩ := Option.isSome_iff_exists.mp hsome
      rw [Function.update_of_ne (hold _ u hu)]
      exact ⟨hsome, hport⟩
    · rw [hsock] at hu
      rw [Function.update_of_ne (hold _ u hu)]
      exact h.job i u hu
    · rcases List.mem_append.mp hi with hi | hi
      · exact Nat.lt_succ_of_lt (h.listed i hi)
      · cases List.mem_singleton.mp hi
        exact Nat.lt_succ_self _
    · rw [hsock]
      exact h.unmade i (Nat.le_of_succ_le hi)
    · rw [hsock]
      exact hl i u hu

/-- other code registers a listener -/
theorem listen_ok (h : TftpShape s) (port : UInt16) (arg : Nat) (room : Bool) :
    TftpShape { s with udpList := (udpListen s.udpList port (some .other) arg room).1 } := by
  refine { h with listening := h.listening.listen _ _ _ _, listener := fun e he hcb => ?_, job := fun i u hu => ?_ }
  · rcases udpListen_new he with he | rfl
    · exact h.listener e he hcb
    · cases hcb
  · obtain ⟨hlt, hlast, hjob, hmem⟩ := h.job i u hu
    exact ⟨hlt, hlast, hjob, udpListen_old hmem⟩

theorem tftpStep_ok (h : TftpShape s) (hl : TftpLogs file s) {op : TftpOp} (hwhen : TftpWhen file s op) :
    TftpShape (tftpStep s op) ∧ TftpLogs file (tftpStep s op) := by
  cases op with
  | setWriteClient fileName room => exact tftpSetWriteClient_ok h hl fileName room
  | listen port arg room => exact ⟨listen_ok h port arg room, hl⟩
  | input p opened room ret =>
    unfold tftpStep
    dsimp only
    cases hin : udpInput s.udpList p.dstPort with
    | none => exact ⟨h, hl⟩
    | some l =>
      obtain ⟨hmem, hport⟩ := udpInput_mem hin
      obtain ⟨port, callback, arg⟩ := l
      have hport : port = p.dstPort := hport
      subst hport
      dsimp only
      cases callback with
      | none => exact absurd rfl (h.listening.live _ hmem)
      | some cb =>
        cases cb with
        | udpSvcCallback =>
          apply udpSvcCallback_ok h hl
          exact fun j hopen hop hfind hnone => hwhen.2 j hopen ⟨⟨arg, hin⟩, hop, hfind, hnone⟩
        | udpWrqCallback =>
          obtain ⟨t, ht⟩ := Option.isSome_iff_exists.mp (h.listener _ hmem rfl).1
          apply udpWrqCallback_ok h hl ht
          exact fun hlen haddr hsrc hdata => hwhen.1 arg t ⟨hin, ht, hlen, haddr, hsrc, hdata⟩
        | other => exact ⟨h, hl⟩

theorem tftp_ok (h : (tftpSys file).Run (TftpWhen file) s) : TftpShape s ∧ TftpLogs file s := by
  apply Machine.Run.invariant (I := fun s => TftpShape s ∧ TftpLogs file s) _ _ h
  · rintro _ rfl
    exact ⟨tftpServerInit_shape, tftpServerInit_logs⟩
  · rintro s op _ ⟨hshape, hlogs⟩ hwhen ⟨-, rfl⟩
    exact tftpStep_ok hshape hlogs hwhen

end

/-- **Transfers.**  In a run whose events meet the condition the client of a transfer gets the blocks of the file in
order and each once, then null data once; the socket is closed once, the listener is there until then and not
afterwards, and no packet is dispatched to null. -/
theorem tftp_serves (file : Nat → List UInt8) {s : Tftp} (h : (tftpSys file).Run (TftpWhen file) s) :
    TftpServed file s := by
  obtain ⟨hshape, hlogs⟩ := tftp_ok h
  refine ⟨fun j t ht => ?_, fun j t hjob => (hlogs j t hjob).2, hshape.listener, hshape.listening.live,
    hshape.nullCalls⟩
  obtain ⟨-, -, hjob, hmem⟩ := hshape.job j t ht
  exact ⟨hjob, (hlogs j t hjob).1 ht, udpInput_of_mem hshape.listening hmem⟩

/-! ## a file of one byte -/

/-- the request for the file `a` from port 5000 of the host 10 -/
def askA : UdpPacket := ⟨TFTP_PORT, 10, 5000, [0, 2, 97, 0], []⟩

/-- its only block -/
def blockA : UdpPacket := ⟨2224, 10, 5000, dataPacket 1 [7], []⟩

/-- the server when the request was accepted -/
def acceptedA : Tftp := tftpStep (tftpStep tftpServerInit (.setWriteClient [97] true)) (.input askA true true 0)

theorem blockA_carries : Carries [7] 0 blockA.data := by
  unfold Carries
  decide

theorem askA_notData {s : Tftp} (h : udpInput s.udpList TFTP_PORT = some ⟨TFTP_PORT, some .udpSvcCallback, 0⟩)
    (j t : Nat) : ¬ IsData s askA j t := by
  rintro ⟨hin, -⟩
  cases h.symm.trans hin

theorem blockA_isData {j t : Nat} (h : IsData acceptedA blockA j t) : j = 0 ∧ t = 0 := by
  obtain ⟨hin, hs, -⟩ := h
  have hfirst : udpInput acceptedA.udpList blockA.dstPort = some ⟨blockA.dstPort, some .udpWrqCallback, 0⟩ := by decide
  cases hfirst.symm.trans hin
  have hsock : (acceptedA.jobs 0).socket = some 0 := by decide
  cases hsock.symm.trans hs
  exact ⟨rfl, rfl⟩

theorem tftpRun_step {file : Nat → List UInt8} {G : Tftp → TftpOp → Prop} {s : Tftp} (h : (tftpSys file).Run G s)
    (op : TftpOp) (hg : G s op) (hpeer : TftpPeer file s op) : (tftpSys file).Run G (tftpStep s op) :=
  h.step hg ⟨hpeer, rfl⟩

theorem acceptedA_run : (tftpSys fun _ => [7]).Run (TftpWhen fun _ => [7]) acceptedA := by
  have h0 : (tftpSys fun _ => [7]).Run (TftpWhen fun _ => [7]) tftpServerInit := .init rfl
  have h1 := tftpRun_step h0 (.setWriteClient [97] true) trivial trivial
  apply tftpRun_step h1 (.input askA true true 0)
  · exact ⟨fun j t h => absurd h (askA_notData rfl j t), fun j _ _ => ⟨rfl, by decide⟩⟩
  · exact fun j t h => absurd h (askA_notData rfl j t)

theorem blockA_peer {s : Tftp} {ret : Int} : TftpPeer (fun _ => [7]) s (.input blockA true true ret) :=
  fun _ _ _ => ⟨0, blockA_carries⟩

/-- the block is taken, and the client gets the file -/
theorem tftp_serves_byte : ∃ s, TftpServed (fun _ => [7]) s ∧ (s.transfers 0).delivered.flatten = [7] ∧
    (s.transfers 0).nulls = 1 := by
  have h := tftpRun_step acceptedA_run (.input blockA true true 0) ⟨fun j t h => ?_, fun j _ h => ?_⟩ blockA_peer
  · exact ⟨_, tftp_serves _ h, by decide, by decide⟩
  · obtain ⟨rfl, rfl⟩ := blockA_isData h
    exact ⟨blockA_carries, fun hr => absurd hr (by decide)⟩
  · obtain ⟨⟨arg, hin⟩, -⟩ := h
    have hfirst : udpInput acceptedA.udpList blockA.dstPort = some ⟨blockA.dstPort, some .udpWrqCallback, 0⟩ := by
      decide
    cases hfirst.symm.trans hin

/-- **A client that refuses the last block.**  The transfer is ended twice, the second end registers a listener without
a callback, and the next packet is dispatched to it. -/
theorem tftp_serves_fails : ¬ ∀ file s, (tftpSys file).Reach s → TftpServed file s := by
  intro hall
  have h1 := tftpRun_step acceptedA_run.reach (.input blockA true true (-1)) trivial blockA_peer
  have h2 := tftpRun_step h1 (.input blockA true true 0) trivial blockA_peer
  have hcalls := (hall _ _ h2).nullCalls
  revert hcalls
  decide

end LkHv.Net
