import LkHv.Kernel.Err
import LkHv.Kernel.Word
import LkHv.Lib.Ring

/-!
# Ports (`kernel/port.c`)

An address is that of a write port, of a read port or of a port group (the magic number), or of none.  Each
field that several of the calls change is a map of its own over the addresses.  A call runs under
`thread_lock`; `port_read` is cut where its thread blocks.

* `bufWrite`, `bufRead`     the ring of packets; `content` is what lies in it;
* `portCreate`, `portOpen`, `portGroup`, `portGroupAdd`, `portGroupRemove`, `portClose`, `portDestroy`,
  `portWrite`, `portRead`   the source's;
* `Ports.locked`            a call has returned with `thread_lock` held;
* `Ports.fault`             a list node was deleted that is on no list, or memory used that was freed.
-/

namespace LkHv

def PORT_BUFF_SIZE : Nat := 8
def PORT_BUFF_SIZE_BIG : Nat := 64
def MAX_PORT_GROUP_COUNT : Nat := 256
def PORT_NAME_LEN : Nat := 12
def PORT_MODE_BROADCAST : Nat := 0
def PORT_MODE_UNICAST : Nat := 1
def PORT_MODE_BIG_BUFFER : Nat := 2

/-- `port_packet_t`, two words -/
abbrev PortPacket := BitVec 128

/-! ## the ring of packets -/

/-- `port_buf_t` -/
structure PortBuf where
  log2 : Nat
  avail : Nat
  head : Nat
  tail : Nat
  packet : Nat → PortPacket

namespace PortBuf

def makeBuf (big : Bool) : PortBuf :=
  let pkCount := if big then PORT_BUFF_SIZE_BIG else PORT_BUFF_SIZE
  { log2 := log2Uint pkCount, avail := pkCount, head := 0, tail := 0, packet := fun _ => 0 }

def bufIsEmpty (buf : PortBuf) : Bool := buf.avail = valpow2 buf.log2

/-- the loop of `buf_write` -/
def writeLoop (buf : PortBuf) : List PortPacket → PortBuf
  | [] => buf
  | p :: packets =>
    writeLoop { buf with packet := Function.update buf.packet buf.tail p
                         tail := modpow2 (add32 buf.tail 1) buf.log2 } packets

/-- `none` for `ERR_NOT_ENOUGH_BUFFER` -/
def bufWrite (buf : PortBuf) (packets : List PortPacket) : Option PortBuf :=
  if buf.avail < packets.length then none
  else some { buf.writeLoop packets with avail := buf.avail - packets.length }

/-- `none` for `ERR_NO_MSG` -/
def bufRead (buf : PortBuf) : Option (PortPacket × PortBuf) :=
  if buf.bufIsEmpty then none
  else some (buf.packet buf.head,
    { buf with head := modpow2 (add32 buf.head 1) buf.log2, avail := add32 buf.avail 1 })

/-- the packets in the ring, the next one to be read first -/
def content (buf : PortBuf) : List PortPacket :=
  Ring.window buf.packet (2 ^ buf.log2) buf.head (2 ^ buf.log2 - buf.avail)

structure Ok (buf : PortBuf) : Prop where
  log2 : buf.log2 < 32
  avail : buf.avail ≤ 2 ^ buf.log2
  head : buf.head < 2 ^ buf.log2
  tail : buf.tail = (buf.head + (2 ^ buf.log2 - buf.avail)) % 2 ^ buf.log2

section
variable {buf buf' : PortBuf}

theorem makeBuf_ok (big : Bool) : (makeBuf big).Ok ∧ (makeBuf big).content = [] := by
  cases big with
  | false =>
    have hl : (makeBuf false).log2 = 3 := log2Uint_two_pow 3
    have ha : (makeBuf false).avail = 8 := rfl
    refine ⟨⟨by omega, by rw [hl, ha]; decide, by rw [hl]; decide, by rw [hl, ha]; rfl⟩, ?_⟩
    unfold content
    rw [hl, ha]
    rfl
  | true =>
    have hl : (makeBuf true).log2 = 6 := log2Uint_two_pow 6
    have ha : (makeBuf true).avail = 64 := rfl
    refine ⟨⟨by omega, by rw [hl, ha]; decide, by rw [hl]; decide, by rw [hl, ha]; rfl⟩, ?_⟩
    unfold content
    rw [hl, ha]
    rfl

theorem next_eq {i k : Nat} (hk : k < 32) (hi : i < 2 ^ k) : modpow2 (add32 i 1) k = (i + 1) % 2 ^ k := by
  have := Nat.pow_le_pow_right (show 0 < 2 by decide) (show k ≤ 31 by lia)
  rw [modpow2_eq _ hk, add32_of_lt (by lia)]

theorem writeLoop_spec (packets : List PortPacket) {n : Nat} (hk : buf.log2 < 32)
    (ht : buf.tail = (buf.head + n) % 2 ^ buf.log2) (hn : n + packets.length ≤ 2 ^ buf.log2) :
    (buf.writeLoop packets).log2 = buf.log2 ∧ (buf.writeLoop packets).head = buf.head ∧
      (buf.writeLoop packets).tail = (buf.head + (n + packets.length)) % 2 ^ buf.log2 ∧
      Ring.window (buf.writeLoop packets).packet (2 ^ buf.log2) buf.head (n + packets.length) =
        Ring.window buf.packet (2 ^ buf.log2) buf.head n ++ packets := by
  induction packets generalizing buf n with
  | nil => exact ⟨rfl, rfl, ht, (List.append_nil _).symm⟩
  | cons p packets ih =>
    rw [List.length_cons] at hn
    have hnext : modpow2 (add32 buf.tail 1) buf.log2 = (buf.head + (n + 1)) % 2 ^ buf.log2 := by
      rw [next_eq hk (ht ▸ Nat.mod_lt _ (by lia)), ht, Nat.mod_add_mod, Nat.add_assoc]
    obtain ⟨h1, h2, h3, h4⟩ := @ih { buf with
      packet := Function.update buf.packet buf.tail p
      tail := modpow2 (add32 buf.tail 1) buf.log2 } (n + 1) hk hnext (by dsimp only; lia)
    refine ⟨h1, h2, ?_, ?_⟩
    · rw [List.length_cons, show n + (packets.length + 1) = n + 1 + packets.length by lia]
      exact h3
    · rw [List.length_cons, show n + (packets.length + 1) = n + 1 + packets.length by lia]
      refine h4.trans ?_
      dsimp only
      rw [ht, Ring.window_update _ _ (by lia), List.append_assoc]
      rfl

/-- all of the packets or none -/
theorem bufWrite_spec (h : buf.Ok) (packets : List PortPacket) :
    (buf.avail < packets.length ∧ buf.bufWrite packets = none) ∨
      (packets.length ≤ buf.avail ∧ ∃ buf', buf.bufWrite packets = some buf' ∧ buf'.Ok ∧
        buf'.content = buf.content ++ packets) := by
  unfold bufWrite
  have ha := h.avail
  by_cases hlt : buf.avail < packets.length
  · exact .inl ⟨hlt, if_pos hlt⟩
  · obtain ⟨h1, h2, h3, h4⟩ := writeLoop_spec packets h.log2 h.tail (by omega)
    have hused : 2 ^ buf.log2 - (buf.avail - packets.length) = 2 ^ buf.log2 - buf.avail + packets.length := by
      omega
    refine .inr ⟨by omega, _, if_neg hlt, ⟨?_, ?_, ?_, ?_⟩, ?_⟩
    · exact h1.symm ▸ h.log2
    · show buf.avail - packets.length ≤ 2 ^ (buf.writeLoop packets).log2
      rw [h1]
      omega
    · show (buf.writeLoop packets).head < 2 ^ (buf.writeLoop packets).log2
      rw [h1, h2]
      exact h.head
    · show (buf.writeLoop packets).tail = ((buf.writeLoop packets).head + (2 ^ (buf.writeLoop packets).log2 -
        (buf.avail - packets.length))) % 2 ^ (buf.writeLoop packets).log2
      rw [h1, h2, h3, hused]
    · unfold content
      dsimp only
      rw [h1, h2, hused]
      exact h4

/-- the packet that came first -/
theorem bufRead_spec (h : buf.Ok) : (buf.content = [] ∧ buf.bufRead = none) ∨
      ∃ p buf', buf.bufRead = some (p, buf') ∧ buf'.Ok ∧ buf.content = p :: buf'.content := by
  have ha := h.avail
  have hk := Nat.pow_le_pow_right (show 0 < 2 by decide) (show buf.log2 ≤ 31 by have := h.log2; lia)
  unfold bufRead bufIsEmpty
  rw [valpow2_eq h.log2]
  by_cases he : buf.avail = 2 ^ buf.log2
  · refine .inl ⟨?_, if_pos (by simpa using he)⟩
    unfold content
    rw [he, Nat.sub_self]
    rfl
  · have hadd : add32 buf.avail 1 = buf.avail + 1 := add32_of_lt (by lia)
    have hhead := next_eq h.log2 h.head
    refine .inr ⟨_, _, if_neg (by simpa using he), ⟨h.log2, ?_, ?_, ?_⟩, ?_⟩
    · dsimp only
      rw [hadd]
      lia
    · dsimp only
      rw [hhead]
      exact Nat.mod_lt _ (by lia)
    · dsimp only
      rw [hadd, hhead, Nat.mod_add_mod, h.tail]
      congr 1
      lia
    · unfold content
      dsimp only
      rw [hadd, hhead, show 2 ^ buf.log2 - buf.avail = 2 ^ buf.log2 - (buf.avail + 1) + 1 by lia,
        Ring.window_succ _ _ _ _ h.head]

end
end PortBuf

/-! ## the objects -/

/-- `write_port_t` without its buffer -/
structure WritePort where
  /-- the magic number is `WRITEPORT_MAGIC_X` -/
  closed : Bool
  mode : Nat
  name : List UInt8
  rpList : List Nat

/-- `read_port_t` without its buffer and its wait queue -/
structure ReadPort where
  ctx : Nat
  wport : Option Nat
  gport : Option Nat

/-- `port_group_t` without its wait queue -/
structure PortGroup where
  rpList : List Nat

/-- a thread in `wait_queue_block`, and the timeout of its call -/
structure PortWaiter where
  thread : Nat
  timeout : Nat
deriving DecidableEq

/-- a thread that was woken and has not run since, and what `wait_queue_block` is to return -/
structure PortReady where
  waiter : PortWaiter
  port : Nat
  ret : Int
deriving DecidableEq

structure Ports where
  writePortList : List Nat
  writePorts : Nat → Option WritePort
  readPorts : Nat → Option ReadPort
  groups : Nat → Option PortGroup
  /-- `buf` of the write port or read port -/
  buf : Nat → Option PortBuf
  /-- `wait` of the read port or group -/
  wait : Nat → List PortWaiter
  ready : List PortReady
  locked : Bool
  fault : Bool

namespace Ports

/-- `port_init` -/
def portInit : Ports :=
  ⟨[], fun _ => none, fun _ => none, fun _ => none, fun _ => none, fun _ => [], [], false, false⟩

/-- the address of an object that was not freed -/
def live (s : Ports) (h : Nat) : Bool := (s.writePorts h).isSome || (s.readPorts h).isSome || (s.groups h).isSome

/-- `wait_queue_wake_one` with `NO_ERROR`, on the queue of a port or group -/
def wakeOne (s : Ports) (h : Nat) : Ports × Nat :=
  match s.wait h with
  | [] => (s, 0)
  | w :: l => ({ s with wait := Function.update s.wait h l, ready := ⟨w, h, NO_ERROR⟩ :: s.ready }, 1)

/-- `wait_queue_wake_all` -/
def wakeAll (s : Ports) (h : Nat) (ret : Int) : Ports :=
  { s with wait := Function.update s.wait h []
           ready := ((s.wait h).map fun w => ⟨w, h, ret⟩).reverse ++ s.ready }

def setGport (s : Ports) (r : Nat) (g : Option Nat) : Ports :=
  match s.readPorts r with
  | none => { s with fault := true }
  | some rp => { s with readPorts := Function.update s.readPorts r (some { rp with gport := g }) }

def setWport (s : Ports) (r : Nat) (w : Option Nat) : Ports :=
  match s.readPorts r with
  | none => { s with fault := true }
  | some rp => { s with readPorts := Function.update s.readPorts r (some { rp with wport := w }) }

/-- `list_add_tail(&pg->rp_list, &rp->g_node)` -/
def linkGroup (s : Ports) (g r : Nat) : Ports :=
  match s.groups g with
  | none => { s with fault := true }
  | some pg => { s with groups := Function.update s.groups g (some ⟨pg.rpList ++ [r]⟩) }

/-- `list_delete(&rp->g_node)` -/
def unlinkGroup (s : Ports) (g r : Nat) : Ports :=
  match s.groups g with
  | none => { s with fault := true }
  | some pg =>
    if r ∈ pg.rpList then { s with groups := Function.update s.groups g (some ⟨pg.rpList.erase r⟩) }
    else { s with fault := true }

/-- `list_delete(&rp->w_node)`, and the buffer is the write port's again if the read port was its last -/
def unlinkWrite (s : Ports) (w r : Nat) : Ports :=
  match s.writePorts w with
  | none => { s with fault := true }
  | some wp =>
    if r ∈ wp.rpList then
      let s := { s with writePorts := Function.update s.writePorts w (some { wp with rpList := wp.rpList.erase r }) }
      if wp.rpList.erase r = [] then
        { s with buf := Function.update (Function.update s.buf w (s.buf r)) r none }
      else s
    else { s with fault := true }

/-- the write port of that name -/
def findPort (s : Ports) (name : List UInt8) : Option Nat :=
  s.writePortList.find? fun w => (s.writePorts w).any fun wp => wp.name = name

/-! ## the calls

`mem` is what `calloc` returns for the object and `bufMem` says that there was memory for the buffer; `out` says
that the caller's result pointer is not `NULL`. -/

def portCreate (s : Ports) (mem : Option Nat) (bufMem : Bool) (name : Option (List UInt8)) (mode : Nat)
    (out : Bool) : Ports × Int :=
  match name with
  | none => (s, ERR_INVALID_ARGS)
  | some name =>
    if out = false then (s, ERR_INVALID_ARGS)
    else if mode &&& PORT_MODE_BROADCAST ≠ 0 ∧ mode &&& PORT_MODE_BIG_BUFFER ≠ 0 then (s, ERR_INVALID_ARGS)
    else if name.length ≥ PORT_NAME_LEN then (s, ERR_INVALID_ARGS)
    else
      match s.findPort name with
      | some w =>
        if (s.writePorts w).any fun wp => wp.closed then (s, ERR_BUSY) else (s, ERR_ALREADY_EXISTS)
      | none =>
        match mem with
        | none => (s, ERR_NO_MEMORY)
        | some w =>
          if bufMem = false then (s, ERR_NO_MEMORY)
          else ({ s with
            writePorts := Function.update s.writePorts w (some ⟨false, mode, name, []⟩)
            buf := Function.update s.buf w (some (.makeBuf (mode &&& PORT_MODE_BIG_BUFFER ≠ 0)))
            writePortList := s.writePortList ++ [w] }, NO_ERROR)

/-- the end of `port_open`: the read port is on the list of its write port, with a buffer -/
def addReader (s : Ports) (w r ctx : Nat) (wp : WritePort) (buf : PortBuf) : Ports :=
  { s with readPorts := Function.update s.readPorts r (some ⟨ctx, some w, none⟩)
           writePorts := Function.update s.writePorts w (some { wp with rpList := wp.rpList ++ [r] })
           buf := Function.update (Function.update s.buf w none) r (some buf)
           wait := Function.update s.wait r [] }

def portOpen (s : Ports) (mem : Option Nat) (bufMem : Bool) (name : Option (List UInt8)) (ctx : Nat)
    (out : Bool) : Ports × Int :=
  match name with
  | none => (s, ERR_INVALID_ARGS)
  | some name =>
    if out = false then (s, ERR_INVALID_ARGS)
    else
      match mem with
      | none => (s, ERR_NO_MEMORY)
      | some r =>
        if bufMem = false then (s, ERR_NO_MEMORY)
        else
          match (s.findPort name).bind fun w => (s.writePorts w).map fun wp => (w, wp) with
          | none => (s, ERR_NOT_FOUND)
          | some (w, wp) =>
            match s.buf w with
            -- the first read port takes the buffer over
            | some buf => (s.addReader w r ctx wp buf, NO_ERROR)
            | none =>
              if wp.mode &&& PORT_MODE_UNICAST ≠ 0 then (s, ERR_NOT_ALLOWED)
              else (s.addReader w r ctx wp (.makeBuf false), NO_ERROR)

/-- the loop of `port_group`; `done` are the ports before, the last one first -/
def groupLoop (s : Ports) (g : Nat) (done : List Nat) : List Nat → Ports × Int
  | [] => (s, NO_ERROR)
  | r :: ports =>
    match s.readPorts r with
    | some ⟨_, _, none⟩ => groupLoop ((s.setGport r (some g)).linkGroup g r) g (r :: done) ports
    | _ => (done.reverse.foldl (fun s r => s.setGport r none) s, ERR_BAD_HANDLE)

/-- `null` says that `ports` is `NULL` -/
def portGroup (s : Ports) (mem : Option Nat) (ports : List Nat) (null out : Bool) : Ports × Int :=
  if ports.length > MAX_PORT_GROUP_COUNT then (s, ERR_TOO_BIG)
  else if ports ≠ [] ∧ null then (s, ERR_INVALID_ARGS)
  else if out = false then (s, ERR_INVALID_ARGS)
  else
    match mem with
    | none => (s, ERR_NO_MEMORY)
    | some g =>
      let s := { s with groups := Function.update s.groups g (some ⟨[]⟩), wait := Function.update s.wait g [] }
      let r := s.groupLoop g [] ports
      if r.2 = NO_ERROR then r
      else ({ r.1 with groups := Function.update r.1.groups g none }, r.2)

def portGroupAdd (s : Ports) (group port : Option Nat) : Ports × Int :=
  match port, group with
  | some r, some g =>
    match s.groups g with
    | none => (s, ERR_INVALID_ARGS)
    | some pg =>
      match s.readPorts r with
      | some ⟨_, _, none⟩ =>
        if pg.rpList.length = MAX_PORT_GROUP_COUNT then (s, ERR_TOO_BIG)
        else
          let s := (s.setGport r (some g)).linkGroup g r
          match s.buf r with
          | none => ({ s with fault := true }, NO_ERROR)
          | some buf => (if buf.bufIsEmpty then s else (s.wakeOne g).1, NO_ERROR)
      | _ => (s, ERR_BAD_HANDLE)
  | _, _ => (s, ERR_INVALID_ARGS)

def portGroupRemove (s : Ports) (group port : Option Nat) : Ports × Int :=
  match port, group with
  | some r, some g =>
    match s.groups g with
    | none => (s, ERR_INVALID_ARGS)
    | some pg =>
      if (s.readPorts r).any fun rp => rp.gport = some g then
        -- the return below is without `THREAD_UNLOCK`
        if r ∉ pg.rpList then ({ s with locked := true }, ERR_BAD_HANDLE)
        else (s.unlinkGroup g r, NO_ERROR)
      else (s, ERR_BAD_HANDLE)
  | _, _ => (s, ERR_INVALID_ARGS)

/-- what `port_destroy` does for one reader -/
def dropReader (s : Ports) (r : Nat) : Ports :=
  let s := s.wakeAll r ERR_CANCELLED
  let s := match (s.readPorts r).bind ReadPort.gport with
    | none => s
    | some g => s.wakeAll g ERR_CANCELLED
  s.setWport r none

def portDestroy (s : Ports) (port : Option Nat) : Ports × Int :=
  match port with
  | none => (s, ERR_INVALID_ARGS)
  | some w =>
    match s.writePorts w with
    | some ⟨true, _, _, rpList⟩ =>
      let s := if w ∈ s.writePortList then { s with writePortList := s.writePortList.erase w }
        else { s with fault := true }
      let s := if (s.buf w).isSome then s else rpList.foldl dropReader s
      ({ s with writePorts := Function.update s.writePorts w none, buf := Function.update s.buf w none }, NO_ERROR)
    | _ => (s, ERR_BAD_HANDLE)

def leaveWport (s : Ports) (r : Nat) : Option Nat → Ports
  | none => s
  | some w => s.unlinkWrite w r

def leaveGport (s : Ports) (r : Nat) : Option Nat → Ports
  | none => s
  | some g => s.unlinkGroup g r

/-- `port_close` on a read port -/
def closeRead (s : Ports) (r : Nat) (rp : ReadPort) : Ports :=
  let s := (s.leaveWport r rp.wport).leaveGport r rp.gport
  let s := s.wakeAll r ERR_OBJECT_DESTROYED
  { s with readPorts := Function.update s.readPorts r none, buf := Function.update s.buf r none }

/-- `port_close` on a group -/
def closeGroup (s : Ports) (g : Nat) (pg : PortGroup) : Ports :=
  let s := s.wakeAll g ERR_OBJECT_DESTROYED
  let s := pg.rpList.foldl (fun s r => s.setGport r none) s
  { s with groups := Function.update s.groups g none }

def portClose (s : Ports) (port : Option Nat) : Ports × Int :=
  match port with
  | none => (s, ERR_INVALID_ARGS)
  | some h =>
    match s.readPorts h, s.groups h, s.writePorts h with
    | some rp, _, _ => (s.closeRead h rp, NO_ERROR)
    | none, some pg, _ => (s.closeGroup h pg, NO_ERROR)
    | none, none, some wp =>
      if wp.closed then (s, ERR_BAD_HANDLE)
      else ({ s with writePorts := Function.update s.writePorts h (some { wp with closed := true }) }, NO_ERROR)
    | none, none, none => (s, ERR_BAD_HANDLE)

/-- wake a thread of the group, or else one of the read port -/
def wakeReader (s : Ports) (r : Nat) : Option Nat → Ports
  | none => (s.wakeOne r).1
  | some g => if (s.wakeOne g).2 = 0 then (s.wakeOne r).1 else (s.wakeOne g).1

/-- what `port_write` does for one reader; the first that has no room leaves `ERR_PARTIAL_WRITE` -/
def writeReader (pk : List PortPacket) (s : Ports × Int) (r : Nat) : Ports × Int :=
  match s.1.buf r, s.1.readPorts r with
  | some buf, some rp =>
    match buf.bufWrite pk with
    | none => (s.1, ERR_PARTIAL_WRITE)
    | some buf => (wakeReader { s.1 with buf := Function.update s.1.buf r (some buf) } r rp.gport, s.2)
  | _, _ => ({ s.1 with fault := true }, s.2)

def portWrite (s : Ports) (port : Option Nat) (pk : Option (List PortPacket)) : Ports × Int :=
  match port, pk with
  | some w, some pk =>
    match s.writePorts w with
    | some ⟨false, _, _, rpList⟩ =>
      match s.buf w with
      | some buf =>
        match buf.bufWrite pk with
        | none => (s, ERR_NOT_ENOUGH_BUFFER)
        | some buf => ({ s with buf := Function.update s.buf w (some buf) }, NO_ERROR)
      | none => rpList.foldl (writeReader pk) (s, NO_ERROR)
    | _ => (s, ERR_BAD_HANDLE)
  | _, _ => (s, ERR_INVALID_ARGS)

/-- how far `port_read` gets -/
inductive ReadRet
  | ret (status : Int)
  /-- the packet, the port it comes from and its `ctx` -/
  | packet (r ctx : Nat) (p : PortPacket)
  | blocks
deriving DecidableEq

/-- `wait_queue_block` up to `thread_resched` -/
def block (s : Ports) (h t timeout : Nat) : Ports × ReadRet :=
  if timeout = 0 then (s, .ret ERR_TIMED_OUT)
  else ({ s with wait := Function.update s.wait h (s.wait h ++ [⟨t, timeout⟩]) }, .blocks)

/-- `read_no_lock` up to the wait: `none` if there is no packet -/
def readPacket (s : Ports) (r : Nat) : Option (Ports × ReadRet) :=
  match s.buf r, s.readPorts r with
  | some buf, some rp => buf.bufRead.map fun b =>
      ({ s with buf := Function.update s.buf r (some b.2) }, .packet r rp.ctx b.1)
  | _, _ => some ({ s with fault := true }, .ret ERR_GENERIC)

/-- one turn of `port_read` under the lock -/
def portRead (s : Ports) (t timeout : Nat) (port : Option Nat) (out : Bool) : Ports × ReadRet :=
  match port with
  | none => (s, .ret ERR_INVALID_ARGS)
  | some h =>
    if out = false then (s, .ret ERR_INVALID_ARGS)
    else
      match s.readPorts h, s.groups h with
      | some _, _ => (s.readPacket h).getD (s.block h t timeout)
      | none, some pg => (pg.rpList.findSome? s.readPacket).getD (s.block h t timeout)
      | none, none => (s, .ret ERR_BAD_HANDLE)

end Ports
end LkHv
