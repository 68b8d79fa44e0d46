import LkHv.Dev.Vring
import LkHv.Lib.Machine
import LkHv.Lib.Slots

/-!
# The network driver (`dev/virtio/net/virtio-net.c`)

A packet buffer is a number.  Calls of `virtio_net_queue_tx_pktbuf`, the worker, `virtio_net_start` and the interrupts
take turns where the driver's lock may change hands: a step is what happens from one such place to the next.  A step
that needs the lock is none while it is held.

* `virtioNetQueueTxPktbuf`, `virtioNetQueueTx`, `virtioNetQueueRx`, `virtioNetIrqDriverCallback`, `virtioNetRxWorker`
* `virtioNetSys`        their interleavings, and the stack that allocates and frees buffers;
* `NetOwned`            each buffer is in one place, the count is right, slots are free when written, so is the lock;
* `TxRoom`              the condition;
* `net_owned`           under it so it is in every state;
* `net_owned_fails`     not so when a ninth transmission meets eight in flight.
-/

namespace LkHv
open Vring

def TX_RING_SIZE : Nat := 16
def RX_RING_SIZE : Nat := 16
def VIRTIO_NET_MSS : Nat := 1514
/-- `sizeof(struct virtio_net_hdr) - 2` -/
def NET_HDR_SIZE : Nat := 12 - 2

inductive NetRing
  | rx
  | tx
  deriving DecidableEq

/-- where a call of `virtio_net_queue_tx_pktbuf` for the buffer `p2` is; `copied` if `virtio_net_queue_tx` made it -/
inductive TxPc
  /-- it allocates the header -/
  | pktbuf (p2 : Nat) (copied : Bool)
  /-- it takes the lock -/
  | queue (p p2 : Nat) (copied : Bool)
  /-- it frees the header -/
  | nodesc (p p2 : Nat) (copied : Bool)
  /-- `virtio_net_queue_tx` got the error -/
  | failed (p2 : Nat)
  deriving DecidableEq

/-- where `virtio_net_rx_worker` is -/
inductive RxPc
  | wait
  | pull
  | got (p : Nat)
  | requeue (p : Nat)

/-- where `virtio_net_start` is: buffers that remain to be allocated -/
inductive StartPc
  | idle
  | left (n : Nat)
  | queue (p n : Nat)

/-- `struct virtio_net_dev` with its rings, the pool of buffers, the buffers of the stack's, what runs, and the chains
that the device has not given back -/
structure VirtioNet where
  started : Bool
  lock : Bool
  rxEvent : Bool
  pendingTxPacket : Nat → Option Nat
  pendingRxPacket : Nat → Option Nat
  txPendingCount : Nat
  completedRxQueue : List Nat
  ring : NetRing → Vring
  dlen : Nat → Nat
  pool : List Nat
  owned : List Nat
  calls : List TxPc
  worker : RxPc
  starter : StartPc
  inFlight : NetRing → List Nat

/-- `spin_lock`, `spin_lock_irqsave` -/
def spinLock (s : VirtioNet) : Option VirtioNet := if s.lock then none else some { s with lock := true }

/-- `spin_unlock`, `spin_unlock_irqrestore` -/
def spinUnlock (s : VirtioNet) : VirtioNet := { s with lock := false }

/-- `pktbuf_alloc`, when it gives the buffer `p` -/
def pktbufAlloc (s : VirtioNet) (p : Nat) : Option VirtioNet :=
  if p ∈ s.pool then some { s with pool := s.pool.erase p } else none

def pktbufFree (s : VirtioNet) (p : Nat) : VirtioNet := { s with pool := p :: s.pool }

def VirtioNet.setRing (s : VirtioNet) (ring : NetRing) (r : Vring) : VirtioNet :=
  { s with ring := Function.update s.ring ring r }

def setFlags (r : Vring) (i flags : Nat) : Vring :=
  { r with desc := Function.update r.desc i { r.desc i with flags := flags } }

/-! ## transmission -/

/-- `virtio_net_queue_tx_pktbuf` returns the error -/
def txError (s : VirtioNet) (p2 : Nat) (copied : Bool) : VirtioNet :=
  if copied then { s with calls := .failed p2 :: s.calls } else { s with owned := p2 :: s.owned }

/-- the chain of `i` and the descriptor behind it filled in and submitted -/
def txSubmit (s : VirtioNet) (i p p2 : Nat) : VirtioNet :=
  let r := s.ring .tx
  let next := (r.desc i).next
  let r := setFlags r i ((r.desc i).flags ||| VRING_DESC_F_NEXT)
  let r := setFlags r next 0
  { s with
    txPendingCount := (s.txPendingCount + 2) % 2 ^ 32
    pendingTxPacket := Function.update (Function.update s.pendingTxPacket i (some p)) next (some p2)
    ring := Function.update s.ring .tx (virtioSubmitChain r i)
    inFlight := Function.update s.inFlight .tx (i :: s.inFlight .tx) }

/-- `virtio_net_queue_tx_pktbuf` from one place to the next; `alloc` is what `pktbuf_alloc` returns -/
def virtioNetQueueTxPktbuf (s : VirtioNet) : TxPc → Option Nat → Option VirtioNet
  | .pktbuf p2 copied, none => some (txError s p2 copied)
  | .pktbuf p2 copied, some p =>
    (pktbufAlloc s p).map fun s =>
      { s with dlen := Function.update s.dlen p NET_HDR_SIZE, calls := .queue p p2 copied :: s.calls }
  | .queue p p2 copied, _ =>
    (spinLock s).map fun s =>
      -- this `goto` leaves with the lock held
      if (s.txPendingCount + 2) % 2 ^ 32 > TX_RING_SIZE then { s with calls := .nodesc p p2 copied :: s.calls }
      else
        match virtioAllocDescChain (s.ring .tx) 2 with
        | (none, r) => { spinUnlock (s.setRing .tx r) with calls := .nodesc p p2 copied :: s.calls }
        | (some i, r) => spinUnlock (txSubmit (s.setRing .tx r) i p p2)
  | .nodesc p p2 copied, _ => some (txError (pktbufFree s p) p2 copied)
  -- back in `virtio_net_queue_tx`
  | .failed p2, _ => some (pktbufFree s p2)

/-- `virtio_net_queue_tx` up to its call; `alloc` is what `pktbuf_alloc` returns -/
def virtioNetQueueTx (s : VirtioNet) (len : Nat) : Option Nat → Option VirtioNet
  | none => some s
  | some p =>
    (pktbufAlloc s p).map fun s => { s with dlen := Function.update s.dlen p len, calls := .pktbuf p true :: s.calls }

/-! ## reception -/

/-- `virtio_net_queue_rx`; none also if the assertion on the descriptor fails -/
def virtioNetQueueRx (s : VirtioNet) (p : Nat) : Option VirtioNet :=
  let s := { s with dlen := Function.update s.dlen p (NET_HDR_SIZE + VIRTIO_NET_MSS) }
  (spinLock s).bind fun s =>
    match virtioAllocDescChain (s.ring .rx) 1 with
    | (none, _) => none
    | (some i, r) =>
      some (spinUnlock { s with
        pendingRxPacket := Function.update s.pendingRxPacket i (some p)
        ring := Function.update s.ring .rx (virtioSubmitChain (setFlags r i VRING_DESC_F_WRITE) i)
        inFlight := Function.update s.inFlight .rx (i :: s.inFlight .rx) })

/-- the packet under a descriptor that came back; none if there is none -/
def netTake (s : VirtioNet) (len i : Nat) : NetRing → Option VirtioNet
  | .rx => (s.pendingRxPacket i).map fun p =>
    { s with
      pendingRxPacket := Function.update s.pendingRxPacket i none
      dlen := Function.update s.dlen p (if len > NET_HDR_SIZE + VIRTIO_NET_MSS then 0 else len)
      completedRxQueue := s.completedRxQueue ++ [p] }
  | .tx => (s.pendingTxPacket i).map fun p =>
    pktbufFree { s with
      pendingTxPacket := Function.update s.pendingTxPacket i none
      txPendingCount := (s.txPendingCount + (2 ^ 32 - 1)) % 2 ^ 32 } p

/-- the loop of `virtio_net_irq_driver_callback` -/
def netChain (ring : NetRing) (len : Nat) : Nat → VirtioNet → Nat → Option VirtioNet
  | 0, _, _ => none
  | fuel + 1, s, i =>
    let desc := (s.ring ring).desc i
    let s := s.setRing ring (virtioFreeDesc (s.ring ring) i)
    (netTake s len i ring).bind fun s =>
      if desc.flags &&& VRING_DESC_F_NEXT ≠ 0 then netChain ring len fuel s desc.next else some s

def virtioNetIrqDriverCallback (s : VirtioNet) (ring : NetRing) (e : VringUsedElem) : Option VirtioNet :=
  (spinLock s).bind fun s =>
    (netChain ring e.len (s.ring ring).num s (e.id % 2 ^ 16)).map fun s =>
      { spinUnlock s with rxEvent := ring = .rx || s.rxEvent }

/-- `virtio_net_rx_worker` from one place to the next; the stack leaves `left` bytes of a packet it was given -/
def virtioNetRxWorker (s : VirtioNet) (left : Nat) : Option VirtioNet :=
  match s.worker with
  | .wait => if s.started ∧ s.rxEvent then some { s with rxEvent := false, worker := .pull } else none
  | .pull =>
    (spinLock s).map fun s =>
      match s.completedRxQueue with
      | [] => { spinUnlock s with worker := .wait }
      | p :: ps => { spinUnlock s with completedRxQueue := ps, worker := .got p }
  | .got p =>
    if NET_HDR_SIZE > s.dlen p then some { s with worker := .requeue p }
    else some { s with dlen := Function.update s.dlen p left, worker := .requeue p }
  | .requeue p => virtioNetQueueRx { s with worker := .pull } p

/-- `virtio_net_start` from one place to the next; `alloc` is what `pktbuf_alloc` returns -/
def virtioNetStart (s : VirtioNet) (alloc : Option Nat) : Option VirtioNet :=
  match s.starter with
  | .idle => some { s with started := true, starter := .left (RX_RING_SIZE - 1) }
  | .left 0 => none
  | .left (n + 1) =>
    match alloc with
    | none => some { s with starter := .left n }
    | some p => (pktbufAlloc s p).map fun s => { s with starter := .queue p n }
  | .queue p n => virtioNetQueueRx { s with starter := .left n } p

/-! ## interleavings -/

inductive NetOp
  /-- the stack allocates a buffer, or frees one of its own -/
  | alloc (p : Nat)
  | free (p : Nat)
  | queueTxPktbuf (p2 : Nat)
  | queueTx (len : Nat) (alloc : Option Nat)
  /-- a call goes on -/
  | run (c : TxPc) (alloc : Option Nat)
  /-- the device gives a chain back -/
  | irq (ring : NetRing) (e : VringUsedElem)
  | worker (left : Nat)
  | start (alloc : Option Nat)

def netStep (s : VirtioNet) : NetOp → Option VirtioNet
  | .alloc p => (pktbufAlloc s p).map fun s => { s with owned := p :: s.owned }
  | .free p => if p ∈ s.owned then some (pktbufFree { s with owned := s.owned.erase p } p) else none
  | .queueTxPktbuf p2 =>
    if p2 ∈ s.owned then some { s with owned := s.owned.erase p2, calls := .pktbuf p2 false :: s.calls } else none
  | .queueTx len alloc => virtioNetQueueTx s len alloc
  | .run c alloc => if c ∈ s.calls then virtioNetQueueTxPktbuf { s with calls := s.calls.erase c } c alloc else none
  | .irq ring e =>
    if e.id ∈ s.inFlight ring then
      virtioNetIrqDriverCallback
        { s with inFlight := Function.update s.inFlight ring ((s.inFlight ring).erase e.id) } ring e
    else none
  | .worker left => virtioNetRxWorker s left
  | .start alloc => virtioNetStart s alloc

/-- after `virtio_net_init`, both rings allocated in some memory; `n` buffers -/
def VirtioNet.Fresh (n : Nat) (s : VirtioNet) : Prop :=
  (∀ ring, ∃ p, virtioAllocRing 16 (some p) = .ok (s.ring ring)) ∧
    s = ⟨false, false, false, fun _ => none, fun _ => none, 0, [], s.ring, fun _ => 0, List.range n, [], [], .wait,
      .idle, fun _ => []⟩

def virtioNetSys (n : Nat) : Machine VirtioNet NetOp := .ofFun (VirtioNet.Fresh n) netStep

/-! ## ownership -/

def TxPc.packets : TxPc → List Nat
  | .pktbuf p2 _ => [p2]
  | .queue p p2 _ => [p, p2]
  | .nodesc p p2 _ => [p, p2]
  | .failed p2 => [p2]

def RxPc.packets : RxPc → List Nat
  | .wait => []
  | .pull => []
  | .got p => [p]
  | .requeue p => [p]

def StartPc.packets : StartPc → List Nat
  | .queue p _ => [p]
  | _ => []

/-- where the buffers are -/
def VirtioNet.places (s : VirtioNet) : List Nat :=
  s.pool ++ s.owned ++ s.calls.flatMap TxPc.packets ++ Slots.held s.pendingTxPacket TX_RING_SIZE ++
    Slots.held s.pendingRxPacket RX_RING_SIZE ++ s.completedRxQueue ++ s.worker.packets ++ s.starter.packets

/-- the descriptors of a ring are free or in flight, and the packets are pending under those in flight -/
def PendingIn (r : Vring) (pending : Nat → Option Nat) (heads : List Nat) (count : Nat) : Prop :=
  r.num = 16 ∧ ∃ free chain, Layout r heads free chain ∧ (∀ i, (pending i).isSome ↔ i ∈ heads.flatMap chain) ∧
    count = (heads.flatMap chain).length

/-- **Ownership.** -/
structure NetOwned (n : Nat) (s : VirtioNet) : Prop where
  lock : s.lock = false
  places : s.places.Perm (List.range n)
  tx : PendingIn (s.ring .tx) s.pendingTxPacket (s.inFlight .tx) s.txPendingCount
  rx : ∃ count, PendingIn (s.ring .rx) s.pendingRxPacket (s.inFlight .rx) count
  txSlots : ∀ i r, virtioAllocDescChain (s.ring .tx) 2 = (some i, r) →
    s.pendingTxPacket i = none ∧ s.pendingTxPacket (r.desc i).next = none
  rxSlots : ∀ i r, virtioAllocDescChain (s.ring .rx) 1 = (some i, r) → s.pendingRxPacket i = none

/-- a transmission that takes the lock finds two descriptors not in flight -/
def TxRoom (s : VirtioNet) : NetOp → Prop
  | .run (.queue _ _ _) _ => s.txPendingCount + 2 ≤ TX_RING_SIZE
  | _ => True

instance (s : VirtioNet) (op : NetOp) : Decidable (TxRoom s op) := by
  unfold TxRoom
  split <;> infer_instance

/-! ## a ring and its packets -/

namespace PendingIn
variable {r r' : Vring} {pending : Nat → Option Nat} {heads : List Nat} {count i j : Nat}

/-- only the descriptors, the free list and its count matter -/
theorem frame (h : PendingIn r pending heads count) (hd : r'.desc = r.desc) (hf : r'.freeList = r.freeList)
    (hc : r'.freeCount = r.freeCount) (hn : r'.num = r.num) : PendingIn r' pending heads count := by
  obtain ⟨hnum, free, chain, L, hslots, hcount⟩ := h
  exact ⟨hn.trans hnum, free, chain, L.frame hd hf hc hn, hslots, hcount⟩

theorem heads_perm (h : PendingIn r pending heads count) {heads' : List Nat} (hp : heads.Perm heads') :
    PendingIn r pending heads' count := by
  obtain ⟨hnum, free, chain, L, hslots, hcount⟩ := h
  have hflat := hp.flatMap_right chain
  refine ⟨hnum, free, chain, L.heads_perm hp, fun i => (hslots i).trans hflat.mem_iff, ?_⟩
  rw [hcount, hflat.length_eq]

theorem setFlags (h : PendingIn r pending heads count) {flags : Nat}
    (hflags : flags &&& VRING_DESC_F_NEXT = (r.desc i).flags &&& VRING_DESC_F_NEXT) :
    PendingIn (setFlags r i flags) pending heads count := by
  obtain ⟨hnum, free, chain, L, hslots, hcount⟩ := h
  exact ⟨hnum, free, chain, L.fill hflags, hslots, hcount⟩

theorem submit (h : PendingIn r pending heads count) (i : Nat) :
    PendingIn (virtioSubmitChain r i) pending heads count := h.frame rfl rfl rfl rfl

theorem freeCount (h : PendingIn r pending heads count) : r.freeCount + count = 16 := by
  obtain ⟨hnum, free, chain, L, -, hcount⟩ := h
  have hlen := L.parts.length_eq
  rw [List.length_append, List.length_range, hnum] at hlen
  have hc := L.count
  lia

/-- **A chain of one** -/
theorem allocOne (h : PendingIn r pending heads count) (hc : count + 1 ≤ 16) (p : Nat) :
    ∃ i r', virtioAllocDescChain r 1 = (some i, r') ∧ i < 16 ∧ (r'.desc i).flags = 0 ∧ pending i = none ∧
      PendingIn r' (Function.update pending i (some p)) (i :: heads) (count + 1) := by
  have hfree := h.freeCount
  obtain ⟨hnum, free, chain, L, hslots, hcount⟩ := h
  have hn : r.num ≤ 2 ^ 15 := by lia
  have hlen := L.count
  cases free with
  | nil =>
    rw [List.length_nil] at hlen
    lia
  | cons i free =>
    have hfirst := L.freeList_eq
    have L1 := L.take_first hn
    have hflat : (i :: heads).flatMap (Function.update chain i [i]) = i :: heads.flatMap chain := by
      rw [List.flatMap_cons, Function.update_self, flatMap_update L.not_mem_heads, List.singleton_append]
    have hout : i ∉ heads.flatMap chain := fun hm => by
      obtain ⟨a, ha, hi⟩ := List.mem_flatMap.mp hm
      exact L.not_mem_chain ha hi
    refine ⟨i, takeFree r ⟨0, 0⟩, ?_, hnum ▸ L.lt_free (.head _), ?_, ?_, hnum, free, _, L1, fun k => ?_, ?_⟩
    · unfold virtioAllocDescChain
      rw [if_neg (by lia), popChain, popChain, hfirst]
    · show (Function.update r.desc r.freeList _ i).flags = 0
      rw [hfirst, Function.update_self]
    · have hnot : ¬ (pending i).isSome := fun hs => hout ((hslots i).mp hs)
      simpa using hnot
    · rw [hflat, List.mem_cons]
      by_cases e : k = i
      · subst e
        rw [Function.update_self]
        exact ⟨fun _ => .inl rfl, fun _ => rfl⟩
      · rw [Function.update_of_ne e, hslots]
        exact ⟨.inr, fun h => h.resolve_left e⟩
    · rw [hflat, List.length_cons, hcount]

/-- **A chain of two**: the second pass puts another descriptor before the first one -/
theorem allocTwo (h : PendingIn r pending heads count) (hc : count + 2 ≤ 16) (p p2 : Nat) :
    ∃ i j r', virtioAllocDescChain r 2 = (some i, r') ∧ (r'.desc i).next = j ∧ i ≠ j ∧ i < 16 ∧ j < 16 ∧
      (r'.desc i).flags = VRING_DESC_F_NEXT ∧ (r'.desc j).flags = 0 ∧ pending i = none ∧ pending j = none ∧
      PendingIn r' (Function.update (Function.update pending i (some p)) j (some p2)) (i :: heads) (count + 2) := by
  have hfree := h.freeCount
  obtain ⟨hnum, free, chain, L, hslots, hcount⟩ := h
  have hn : r.num ≤ 2 ^ 15 := by lia
  have hlen := L.count
  obtain ⟨j, i, free, rfl⟩ : ∃ j i fs, free = j :: i :: fs := by
    rcases free with _ | ⟨j, _ | ⟨i, fs⟩⟩
    · rw [List.length_nil] at hlen
      lia
    · rw [List.length_singleton] at hlen
      lia
    · exact ⟨j, i, fs, rfl⟩
  have hfirst := L.freeList_eq
  have L1 := L.take_first hn
  have hsecond := L1.freeList_eq
  have L2 := L1.take_next hn
  have hij : i ≠ j := fun e => L.not_mem_free (e ▸ .head _)
  have hi : i ∉ heads := fun hm => L1.not_mem_heads (.tail _ hm)
  have hout : ∀ a, a = i ∨ a = j → a ∉ heads.flatMap chain := by
    intro a ha hm
    obtain ⟨b, hb, hab⟩ := List.mem_flatMap.mp hm
    have hmem : a ∈ j :: i :: free := by
      rcases ha with rfl | rfl
      · exact .tail _ (.head _)
      · exact .head _
    exact L.not_mem_free_of_chain hb hab hmem
  have hnone : ∀ a, a = i ∨ a = j → pending a = none := by
    intro a ha
    have hnot : ¬ (pending a).isSome := fun hs => hout a ha ((hslots a).mp hs)
    simpa using hnot
  have hflat : (i :: heads).flatMap
      (Function.update (Function.update chain j [j]) i (i :: Function.update chain j [j] j)) =
        i :: j :: heads.flatMap chain := by
    rw [List.flatMap_cons, Function.update_self, flatMap_update hi, flatMap_update L.not_mem_heads,
      Function.update_self, List.cons_append, List.singleton_append]
  refine ⟨i, j, takeFree (takeFree r ⟨0, 0⟩) ⟨VRING_DESC_F_NEXT, j⟩, ?_, ?_, hij,
    hnum ▸ L.lt_free (.tail _ (.head _)), hnum ▸ L.lt_free (.head _), ?_, ?_, hnone i (.inl rfl), hnone j (.inr rfl), hnum, free, _, L2, fun k => ?_, ?_⟩
  · unfold virtioAllocDescChain
    rw [if_neg (by lia), popChain, popChain, popChain, hfirst, hsecond]
  · show (Function.update (takeFree r ⟨0, 0⟩).desc (takeFree r ⟨0, 0⟩).freeList _ i).next = j
    rw [hsecond, Function.update_self]
  · show (Function.update (takeFree r ⟨0, 0⟩).desc (takeFree r ⟨0, 0⟩).freeList _ i).flags = _
    rw [hsecond, Function.update_self]
  · show (Function.update (takeFree r ⟨0, 0⟩).desc (takeFree r ⟨0, 0⟩).freeList _ j).flags = 0
    rw [hsecond, Function.update_of_ne hij.symm]
    show (Function.update r.desc r.freeList _ j).flags = 0
    rw [hfirst, Function.update_self]
  · rw [hflat, List.mem_cons, List.mem_cons]
    by_cases ej : k = j
    · subst ej
      rw [Function.update_self]
      exact ⟨fun _ => .inr (.inl rfl), fun _ => rfl⟩
    · rw [Function.update_of_ne ej]
      by_cases ei : k = i
      · subst ei
        rw [Function.update_self]
        exact ⟨fun _ => .inl rfl, fun _ => rfl⟩
      · rw [Function.update_of_ne ei, hslots]
        exact ⟨fun h => .inr (.inr h), fun h => (h.resolve_left ei).resolve_left ej⟩
  · rw [hflat, List.length_cons, List.length_cons, hcount]

/-- **The first descriptor of a chain given back**, with its packet -/
theorem give (h : PendingIn r pending (i :: heads) count) : ∃ p, pending i = some p ∧ i < 16 ∧ 0 < count ∧
    ((r.desc i).flags &&& VRING_DESC_F_NEXT ≠ 0 →
      PendingIn (virtioFreeDesc r i) (Function.update pending i none) ((r.desc i).next :: heads) (count - 1)) ∧
    (¬ (r.desc i).flags &&& VRING_DESC_F_NEXT ≠ 0 →
      PendingIn (virtioFreeDesc r i) (Function.update pending i none) heads (count - 1)) := by
  obtain ⟨hnum, free, chain, L, hslots, hcount⟩ := h
  have hn : r.num ≤ 2 ^ 15 := by lia
  have hlink := L.chains i (.head _)
  obtain ⟨c, hc⟩ : ∃ c, chain i = i :: c := by
    cases hci : chain i with
    | nil => exact absurd hci hlink.ne_nil
    | cons a c =>
      rw [hci] at hlink
      exact ⟨c, by rw [Option.some.inj hlink.1]⟩
  obtain ⟨hnext, hlast⟩ := L.giveFirst hn hc
  have hflat : (i :: heads).flatMap chain = i :: (c ++ heads.flatMap chain) := by
    rw [List.flatMap_cons, hc, List.cons_append]
  rw [hflat] at hslots hcount
  rw [List.length_cons] at hcount
  have hnd := (List.nodup_append.mp L.nodup).2.1
  rw [hflat, List.nodup_cons] at hnd
  obtain ⟨p, hp⟩ := Option.isSome_iff_exists.mp ((hslots i).mpr (.head _))
  -- the slots that remain
  have hrest : ∀ k, (Function.update pending i none k).isSome ↔ k ∈ c ++ heads.flatMap chain := by
    intro k
    by_cases e : k = i
    · subst e
      rw [Function.update_self]
      exact ⟨fun hs => (by cases hs), fun hm => absurd hm hnd.1⟩
    · rw [Function.update_of_ne e, hslots, List.mem_cons]
      exact ⟨fun h => h.resolve_left e, .inr⟩
  refine ⟨p, hp, hnum ▸ L.lt_head (.head _), by lia, fun hx => ?_, fun hx => ?_⟩
  · obtain ⟨hk, L'⟩ := hnext hx
    have hflat' : ((r.desc i).next :: heads).flatMap (Function.update chain (r.desc i).next c) =
        c ++ heads.flatMap chain := by
      rw [List.flatMap_cons, Function.update_self, flatMap_update hk]
    refine ⟨hnum, _, _, L', fun k => ?_, ?_⟩
    · rw [hflat', hrest]
    · rw [hflat', hcount, Nat.add_sub_cancel]
  · obtain ⟨rfl, L'⟩ := hlast hx
    refine ⟨hnum, _, _, L', fun k => ?_, ?_⟩
    · rw [hrest, List.nil_append]
    · rw [hcount, Nat.add_sub_cancel, List.nil_append]

end PendingIn

/-! ## the invariant -/

/-- the receive buffers that `virtio_net_start` may still queue -/
def StartPc.due : StartPc → Nat
  | .idle => RX_RING_SIZE - 1
  | .left n => n
  | .queue _ n => n + 1

/-- the buffers in `hand` are those of the step that is under way, `k` of them receive buffers; `m` descriptors of the
receive ring are in flight -/
structure NetOk (n : Nat) (hand : List Nat) (k m : Nat) (txHeads rxHeads : List Nat) (s : VirtioNet) : Prop where
  places : ∀ a, s.places.count a + hand.count a = (List.range n).count a
  tx : PendingIn (s.ring .tx) s.pendingTxPacket txHeads s.txPendingCount
  rx : PendingIn (s.ring .rx) s.pendingRxPacket rxHeads m
  room : m + s.completedRxQueue.length + s.worker.packets.length + s.starter.due + k < RX_RING_SIZE

/-- between two steps -/
def NetSettled (n : Nat) (hand : List Nat) (k : Nat) (s : VirtioNet) : Prop :=
  s.lock = false ∧ ∃ m, NetOk n hand k m (s.inFlight .tx) (s.inFlight .rx) s

section
variable {n k m fuel len i p p2 : Nat} {hand txHeads rxHeads : List Nat} {s s' : VirtioNet} {c : TxPc}

theorem places_count (s : VirtioNet) (a : Nat) : s.places.count a =
    s.pool.count a + s.owned.count a + (s.calls.flatMap TxPc.packets).count a +
      (Slots.held s.pendingTxPacket TX_RING_SIZE).count a + (Slots.held s.pendingRxPacket RX_RING_SIZE).count a +
      s.completedRxQueue.count a + s.worker.packets.count a + s.starter.packets.count a := by
  unfold VirtioNet.places
  simp only [List.count_append]

theorem count_cons_eq (b a : Nat) (l : List Nat) : (b :: l).count a = [b].count a + l.count a := by
  rw [← List.singleton_append, List.count_append]

theorem count_erase_add {b : Nat} {l : List Nat} (h : b ∈ l) (a : Nat) :
    (l.erase b).count a + [b].count a = l.count a := by
  rw [(List.perm_cons_erase h).count_eq, count_cons_eq b a (l.erase b)]
  omega

theorem count_calls_erase {l : List TxPc} (h : c ∈ l) (a : Nat) :
    ((l.erase c).flatMap TxPc.packets).count a + c.packets.count a = (l.flatMap TxPc.packets).count a := by
  rw [((List.perm_cons_erase h).flatMap_right TxPc.packets).count_eq, List.flatMap_cons, List.count_append]
  omega

namespace NetOk

/-- a buffer of the pool -/
theorem take (h : NetOk n hand k m txHeads rxHeads s) (hp : p ∈ s.pool) :
    NetOk n (p :: hand) k m txHeads rxHeads { s with pool := s.pool.erase p } := by
  refine ⟨fun a => ?_, h.tx, h.rx, h.room⟩
  have hcount := h.places a
  have herase := count_erase_add hp a
  rw [places_count] at hcount ⊢
  rw [count_cons_eq p a]
  dsimp only
  lia

theorem free (h : NetOk n (p :: hand) k m txHeads rxHeads s) : NetOk n hand k m txHeads rxHeads (pktbufFree s p) := by
  refine ⟨fun a => ?_, h.tx, h.rx, h.room⟩
  have hcount := h.places a
  rw [places_count, count_cons_eq p a] at hcount
  rw [places_count]
  show (p :: s.pool).count a + s.owned.count a + (s.calls.flatMap TxPc.packets).count a + _ + _ + _ + _ + _ + _ = _
  rw [count_cons_eq p a]
  show _ + (Slots.held s.pendingTxPacket _).count a + (Slots.held s.pendingRxPacket _).count a +
    s.completedRxQueue.count a + s.worker.packets.count a + s.starter.packets.count a + _ = _
  lia

/-- a buffer of the stack's -/
theorem own (h : NetOk n (p :: hand) k m txHeads rxHeads s) :
    NetOk n hand k m txHeads rxHeads { s with owned := p :: s.owned } := by
  refine ⟨fun a => ?_, h.tx, h.rx, h.room⟩
  have hcount := h.places a
  rw [places_count, count_cons_eq p a] at hcount
  rw [places_count]
  dsimp only
  rw [count_cons_eq p a]
  lia

theorem disown (h : NetOk n hand k m txHeads rxHeads s) (hp : p ∈ s.owned) :
    NetOk n (p :: hand) k m txHeads rxHeads { s with owned := s.owned.erase p } := by
  refine ⟨fun a => ?_, h.tx, h.rx, h.room⟩
  have hcount := h.places a
  have herase := count_erase_add hp a
  rw [places_count] at hcount ⊢
  rw [count_cons_eq p a]
  dsimp only
  lia

/-- a call goes on later -/
theorem push (h : NetOk n (c.packets ++ hand) k m txHeads rxHeads s) :
    NetOk n hand k m txHeads rxHeads { s with calls := c :: s.calls } := by
  refine ⟨fun a => ?_, h.tx, h.rx, h.room⟩
  have hcount := h.places a
  rw [places_count, List.count_append] at hcount
  rw [places_count]
  dsimp only
  rw [List.flatMap_cons, List.count_append]
  lia

theorem pop (h : NetOk n hand k m txHeads rxHeads s) (hc : c ∈ s.calls) :
    NetOk n (c.packets ++ hand) k m txHeads rxHeads { s with calls := s.calls.erase c } := by
  refine ⟨fun a => ?_, h.tx, h.rx, h.room⟩
  have hcount := h.places a
  have herase := count_calls_erase hc a
  rw [places_count] at hcount ⊢
  rw [List.count_append]
  dsimp only
  lia

theorem error (h : NetOk n (p2 :: hand) k m txHeads rxHeads s) (copied : Bool) :
    NetOk n hand k m txHeads rxHeads (txError s p2 copied) := by
  unfold txError
  split
  · exact NetOk.push h
  · exact h.own

/-- **Two buffers under a chain of two** -/
theorem txSubmit (h : NetOk n (p :: p2 :: hand) k m txHeads rxHeads s) (hroom : s.txPendingCount + 2 ≤ TX_RING_SIZE) :
    ∃ i r, virtioAllocDescChain (s.ring .tx) 2 = (some i, r) ∧
      NetOk n hand k m (i :: txHeads) rxHeads (txSubmit (s.setRing .tx r) i p p2) := by
  obtain ⟨i, j, r, halloc, hnext, hij, hi, hj, hfi, hfj, hpi, hpj, hok⟩ := h.tx.allocTwo hroom p p2
  refine ⟨i, r, halloc, fun a => ?_, ?_, ?_, h.room⟩
  · have hcount := h.places a
    rw [places_count, count_cons_eq p a, count_cons_eq p2 a] at hcount
    rw [places_count]
    have h1 := Slots.held_count_set s.pendingTxPacket (some p) a hi
    have h2 := Slots.held_count_set (Function.update s.pendingTxPacket i (some p)) (some p2) a hj
    rw [hpi] at h1
    rw [Function.update_of_ne hij.symm, hpj] at h2
    unfold LkHv.txSubmit VirtioNet.setRing
    dsimp only
    rw [Function.update_self, hnext]
    simp only [Option.toList_none, List.count_nil, Option.toList_some] at h1 h2
    unfold TX_RING_SIZE at hcount ⊢
    lia
  · unfold LkHv.txSubmit VirtioNet.setRing
    dsimp only
    rw [Function.update_self, Function.update_self, hnext]
    have hcount : (s.txPendingCount + 2) % 2 ^ 32 = s.txPendingCount + 2 := by
      unfold TX_RING_SIZE at hroom
      lia
    rw [hcount]
    apply PendingIn.submit
    apply PendingIn.setFlags
    · apply hok.setFlags
      rw [hfi]
      decide
    · show _ = (Function.update r.desc i _ j).flags &&& _
      rw [Function.update_of_ne hij.symm, hfj]
  · unfold LkHv.txSubmit VirtioNet.setRing
    dsimp only
    rw [Function.update_of_ne (by decide), Function.update_of_ne (by decide)]
    exact h.rx

/-- **A receive buffer under a chain of one**: a descriptor is free -/
theorem queueRx (h : NetOk n (p :: hand) (k + 1) m txHeads rxHeads s) (hlock : s.lock = false) :
    ∃ i s', virtioNetQueueRx s p = some s' ∧ s'.lock = false ∧
      s'.inFlight = Function.update s.inFlight .rx (i :: s.inFlight .rx) ∧
      NetOk n hand k (m + 1) txHeads (i :: rxHeads) s' := by
  have hroom := h.room
  obtain ⟨i, r, halloc, hi, hfi, hpi, hok⟩ := h.rx.allocOne (by unfold RX_RING_SIZE at hroom; lia) p
  unfold virtioNetQueueRx spinLock
  dsimp only
  rw [hlock, if_neg (by decide), Option.bind_some]
  dsimp only
  rw [halloc]
  refine ⟨i, _, rfl, rfl, rfl, fun a => ?_, ?_, ?_, ?_⟩
  · have hcount := h.places a
    rw [places_count, count_cons_eq p a] at hcount
    rw [places_count]
    have h1 := Slots.held_count_set s.pendingRxPacket (some p) a hi
    rw [hpi] at h1
    simp only [Option.toList_none, List.count_nil, Option.toList_some] at h1
    unfold spinUnlock
    dsimp only
    unfold RX_RING_SIZE at hcount ⊢
    lia
  · unfold spinUnlock
    dsimp only
    rw [Function.update_of_ne (by decide)]
    exact h.tx
  · unfold spinUnlock
    dsimp only
    rw [Function.update_self]
    apply PendingIn.submit
    apply hok.setFlags
    rw [hfi]
    decide
  · show m + 1 + s.completedRxQueue.length + s.worker.packets.length + s.starter.due + k < RX_RING_SIZE
    lia

/-! ## a chain that comes back -/

/-- the first buffer of a transmission is freed -/
theorem freeTx (h : NetOk n hand k m (i :: txHeads) rxHeads s) :
    ∃ s', netTake (s.setRing .tx (virtioFreeDesc (s.ring .tx) i)) len i .tx = some s' ∧ s'.lock = s.lock ∧
      s'.inFlight = s.inFlight ∧ s'.txPendingCount + 1 = s.txPendingCount ∧
      (((s.ring .tx).desc i).flags &&& VRING_DESC_F_NEXT ≠ 0 →
        NetOk n hand k m (((s.ring .tx).desc i).next :: txHeads) rxHeads s') ∧
      (¬ ((s.ring .tx).desc i).flags &&& VRING_DESC_F_NEXT ≠ 0 → NetOk n hand k m txHeads rxHeads s') := by
  obtain ⟨p, hp, hi, hpos, hnext, hlast⟩ := h.tx.give
  have hle : s.txPendingCount ≤ 16 := by
    have hfree := h.tx.freeCount
    lia
  have hcount : (s.txPendingCount + (2 ^ 32 - 1)) % 2 ^ 32 = s.txPendingCount - 1 := by lia
  unfold netTake
  dsimp only
  have hpend : (s.setRing .tx (virtioFreeDesc (s.ring .tx) i)).pendingTxPacket i = some p := hp
  rw [hpend, Option.map_some]
  have hok : ∀ heads, PendingIn (virtioFreeDesc (s.ring .tx) i) (Function.update s.pendingTxPacket i none) heads
      (s.txPendingCount - 1) → NetOk n hand k m heads rxHeads (pktbufFree
        { s.setRing .tx (virtioFreeDesc (s.ring .tx) i) with
          pendingTxPacket := Function.update s.pendingTxPacket i none
          txPendingCount := (s.txPendingCount + (2 ^ 32 - 1)) % 2 ^ 32 } p) := by
    intro heads hin
    apply NetOk.free
    refine ⟨fun a => ?_, ?_, ?_, h.room⟩
    · have hplaces := h.places a
      rw [places_count] at hplaces ⊢
      rw [count_cons_eq p a]
      have h1 := Slots.held_count_set s.pendingTxPacket none a hi
      rw [hp] at h1
      simp only [Option.toList_none, List.count_nil, Option.toList_some] at h1
      unfold VirtioNet.setRing
      dsimp only
      unfold TX_RING_SIZE at hplaces ⊢
      lia
    · unfold VirtioNet.setRing
      dsimp only
      rw [Function.update_self, hcount]
      exact hin
    · unfold VirtioNet.setRing
      dsimp only
      rw [Function.update_of_ne (by decide)]
      exact h.rx
  refine ⟨_, rfl, rfl, rfl, ?_, fun hx => hok _ (hnext hx), fun hx => hok _ (hlast hx)⟩
  show (s.txPendingCount + (2 ^ 32 - 1)) % 2 ^ 32 + 1 = _
  lia

/-- the first buffer of a reception goes to the completed ones -/
theorem completeRx (h : NetOk n hand k m txHeads (i :: rxHeads) s) :
    ∃ s', netTake (s.setRing .rx (virtioFreeDesc (s.ring .rx) i)) len i .rx = some s' ∧ s'.lock = s.lock ∧
      s'.inFlight = s.inFlight ∧ 0 < m ∧ (((s.ring .rx).desc i).flags &&& VRING_DESC_F_NEXT ≠ 0 →
        NetOk n hand k (m - 1) txHeads (((s.ring .rx).desc i).next :: rxHeads) s') ∧
      (¬ ((s.ring .rx).desc i).flags &&& VRING_DESC_F_NEXT ≠ 0 → NetOk n hand k (m - 1) txHeads rxHeads s') := by
  obtain ⟨p, hp, hi, hpos, hnext, hlast⟩ := h.rx.give
  unfold netTake
  dsimp only
  have hpend : (s.setRing .rx (virtioFreeDesc (s.ring .rx) i)).pendingRxPacket i = some p := hp
  rw [hpend, Option.map_some]
  have hok : ∀ heads, PendingIn (virtioFreeDesc (s.ring .rx) i) (Function.update s.pendingRxPacket i none) heads
      (m - 1) → NetOk n hand k (m - 1) txHeads heads { s.setRing .rx (virtioFreeDesc (s.ring .rx) i) with
        pendingRxPacket := Function.update s.pendingRxPacket i none
        dlen := Function.update s.dlen p (if len > NET_HDR_SIZE + VIRTIO_NET_MSS then 0 else len)
        completedRxQueue := s.completedRxQueue ++ [p] } := by
    intro heads hin
    refine ⟨fun a => ?_, ?_, ?_, ?_⟩
    · have hplaces := h.places a
      rw [places_count] at hplaces ⊢
      have h1 := Slots.held_count_set s.pendingRxPacket none a hi
      rw [hp] at h1
      simp only [Option.toList_none, List.count_nil, Option.toList_some] at h1
      unfold VirtioNet.setRing
      dsimp only
      rw [List.count_append]
      unfold RX_RING_SIZE at hplaces ⊢
      lia
    · unfold VirtioNet.setRing
      dsimp only
      rw [Function.update_of_ne (by decide)]
      exact h.tx
    · unfold VirtioNet.setRing
      dsimp only
      rw [Function.update_self]
      exact hin
    · have hroom := h.room
      show m - 1 + (s.completedRxQueue ++ [p]).length + s.worker.packets.length + s.starter.due + k < RX_RING_SIZE
      rw [List.length_append, List.length_singleton]
      lia
  exact ⟨_, rfl, rfl, rfl, hpos, fun hx => hok _ (hnext hx), fun hx => hok _ (hlast hx)⟩

/-- **A transmission comes back.** -/
theorem chainTx (fuel : Nat) : ∀ {s : VirtioNet} {i : Nat}, NetOk n hand k m (i :: txHeads) rxHeads s →
    s.txPendingCount ≤ fuel → ∃ s', netChain .tx len fuel s i = some s' ∧ s'.lock = s.lock ∧
      s'.inFlight = s.inFlight ∧ NetOk n hand k m txHeads rxHeads s' := by
  induction fuel with
  | zero =>
    intro s i h hle
    obtain ⟨-, -, -, hpos, -⟩ := h.tx.give
    lia
  | succ fuel ih =>
    intro s i h hle
    obtain ⟨s1, h1, hlock, hfly, hcount, hnext, hlast⟩ := h.freeTx
    unfold netChain
    dsimp only
    rw [h1, Option.bind_some]
    by_cases hx : ((s.ring .tx).desc i).flags &&& VRING_DESC_F_NEXT ≠ 0
    · rw [if_pos hx]
      obtain ⟨s2, h2, hlock2, hfly2, hok⟩ := ih (hnext hx) (by lia)
      exact ⟨s2, h2, hlock2.trans hlock, hfly2.trans hfly, hok⟩
    · rw [if_neg hx]
      exact ⟨s1, rfl, hlock, hfly, hlast hx⟩

/-- **A reception comes back.** -/
theorem chainRx (fuel : Nat) : ∀ {s : VirtioNet} {i m : Nat}, NetOk n hand k m txHeads (i :: rxHeads) s →
    m ≤ fuel → ∃ s' m', netChain .rx len fuel s i = some s' ∧ s'.lock = s.lock ∧
      s'.inFlight = s.inFlight ∧ NetOk n hand k m' txHeads rxHeads s' := by
  induction fuel with
  | zero =>
    intro s i m h hle
    obtain ⟨-, -, -, hpos, -⟩ := h.rx.give
    omega
  | succ fuel ih =>
    intro s i m h hle
    obtain ⟨s1, h1, hlock, hfly, hpos, hnext, hlast⟩ := h.completeRx
    unfold netChain
    dsimp only
    rw [h1, Option.bind_some]
    by_cases hx : ((s.ring .rx).desc i).flags &&& VRING_DESC_F_NEXT ≠ 0
    · rw [if_pos hx]
      obtain ⟨s2, m2, h2, hlock2, hfly2, hok⟩ := ih (hnext hx) (by omega)
      exact ⟨s2, m2, h2, hlock2.trans hlock, hfly2.trans hfly, hok⟩
    · rw [if_neg hx]
      exact ⟨s1, _, rfl, hlock, hfly, hlast hx⟩

end NetOk

/-! ## one step -/

variable {alloc : Option Nat} {op : NetOp} {ring : NetRing} {e : VringUsedElem}

theorem pktbufAlloc_ok (h : NetSettled n hand k s) (hs : pktbufAlloc s p = some s') :
    NetSettled n (p :: hand) k s' := by
  obtain ⟨hlock, m, hok⟩ := h
  unfold pktbufAlloc at hs
  split at hs
  · rename_i hp
    cases hs
    exact ⟨hlock, m, hok.take hp⟩
  · cases hs

theorem pktbufFree_ok (h : NetSettled n (p :: hand) k s) : NetSettled n hand k (pktbufFree s p) :=
  ⟨h.1, h.2.imp fun _ => NetOk.free⟩

theorem push_ok (h : NetSettled n (c.packets ++ hand) k s) :
    NetSettled n hand k { s with calls := c :: s.calls } := ⟨h.1, h.2.imp fun _ => NetOk.push⟩

/-- the length of a buffer is its owner's -/
theorem dlen_ok (h : NetSettled n hand k s) (dlen : Nat → Nat) : NetSettled n hand k { s with dlen := dlen } :=
  ⟨h.1, h.2.imp fun _ hok => ⟨hok.places, hok.tx, hok.rx, hok.room⟩⟩

theorem virtioNetQueueRx_ok (h : NetSettled n [p] 1 s) (hs : virtioNetQueueRx s p = some s') :
    NetSettled n [] 0 s' := by
  obtain ⟨hlock, m, hok⟩ := h
  obtain ⟨i, s1, hq, hlock1, hfly, hok1⟩ := hok.queueRx hlock
  cases hq.symm.trans hs
  refine ⟨hlock1, m + 1, ?_⟩
  rw [hfly, Function.update_self, Function.update_of_ne (by decide)]
  exact hok1

theorem txError_fields (s : VirtioNet) (p2 : Nat) (copied : Bool) :
    (txError s p2 copied).lock = s.lock ∧ (txError s p2 copied).inFlight = s.inFlight := by
  unfold txError
  split <;> exact ⟨rfl, rfl⟩

theorem txError_ok (h : NetSettled n (p2 :: hand) k s) (copied : Bool) :
    NetSettled n hand k (txError s p2 copied) := by
  obtain ⟨hlock, m, hok⟩ := h
  obtain ⟨hl, hf⟩ := txError_fields s p2 copied
  refine ⟨hl.trans hlock, m, ?_⟩
  rw [hf]
  exact hok.error copied

/-- **A call goes on.** -/
theorem virtioNetQueueTxPktbuf_ok (h : NetSettled n c.packets 0 s)
    (hroom : ∀ p p2 copied, c = .queue p p2 copied → s.txPendingCount + 2 ≤ TX_RING_SIZE)
    (hs : virtioNetQueueTxPktbuf s c alloc = some s') : NetSettled n [] 0 s' := by
  cases c with
  | pktbuf p2 copied =>
    cases alloc with
    | none =>
      cases hs
      exact txError_ok h copied
    | some p =>
      obtain ⟨s1, h1, rfl⟩ := Option.map_eq_some_iff.mp hs
      have hcall : NetSettled n ((TxPc.queue p p2 copied).packets ++ []) 0 s1 := pktbufAlloc_ok h h1
      exact dlen_ok (push_ok hcall) _
  | queue p p2 copied =>
    have hroom := hroom p p2 copied rfl
    obtain ⟨hlock, m, hok⟩ := h
    obtain ⟨i, r, halloc, hsub⟩ := hok.txSubmit hroom
    have hsmall : ¬ (s.txPendingCount + 2) % 2 ^ 32 > TX_RING_SIZE := by
      unfold TX_RING_SIZE at hroom ⊢
      lia
    unfold virtioNetQueueTxPktbuf spinLock at hs
    dsimp only at hs
    rw [hlock, if_neg (by decide), Option.map_some] at hs
    dsimp only at hs
    rw [if_neg hsmall, halloc] at hs
    cases hs
    refine ⟨rfl, m, ?_⟩
    show NetOk n [] 0 m (Function.update s.inFlight .tx (i :: s.inFlight .tx) .tx)
      (Function.update s.inFlight .tx (i :: s.inFlight .tx) .rx) _
    rw [Function.update_self, Function.update_of_ne (by decide)]
    exact ⟨hsub.places, hsub.tx, hsub.rx, hsub.room⟩
  | nodesc p p2 copied =>
    cases hs
    exact txError_ok (pktbufFree_ok h) copied
  | failed p2 =>
    cases hs
    exact pktbufFree_ok h

/-- **A chain comes back.** -/
theorem virtioNetIrqDriverCallback_ok (hlock : s.lock = false)
    (h : ∃ m, match ring with
      | .tx => NetOk n [] 0 m (e.id :: s.inFlight .tx) (s.inFlight .rx) s
      | .rx => NetOk n [] 0 m (s.inFlight .tx) (e.id :: s.inFlight .rx) s)
    (hs : virtioNetIrqDriverCallback s ring e = some s') : NetSettled n [] 0 s' := by
  unfold virtioNetIrqDriverCallback spinLock at hs
  rw [hlock, if_neg (by decide), Option.bind_some] at hs
  obtain ⟨s1, h1, rfl⟩ := Option.map_eq_some_iff.mp hs
  obtain ⟨m, h⟩ := h
  cases ring with
  | tx =>
    have hfree := h.tx.freeCount
    have hid : e.id % 2 ^ 16 = e.id := by
      obtain ⟨-, -, hi, -⟩ := h.tx.give
      exact Nat.mod_eq_of_lt (by lia)
    rw [hid] at h1
    have hnum : (s.ring .tx).num = 16 := h.tx.1
    dsimp only at h1
    rw [hnum] at h1
    have hlocked : NetOk n [] 0 m (e.id :: s.inFlight .tx) (s.inFlight .rx) { s with lock := true } :=
      ⟨h.places, h.tx, h.rx, h.room⟩
    obtain ⟨s2, h2, -, hfly, hok⟩ : ∃ s', netChain .tx e.len 16 { s with lock := true } e.id = some s' ∧
        s'.lock = true ∧ s'.inFlight = s.inFlight ∧ NetOk n [] 0 m (s.inFlight .tx) (s.inFlight .rx) s' :=
      hlocked.chainTx 16 (show s.txPendingCount ≤ 16 by lia)
    cases h2.symm.trans h1
    refine ⟨rfl, m, ?_⟩
    show NetOk n [] 0 m (s1.inFlight .tx) (s1.inFlight .rx) _
    rw [hfly]
    exact ⟨hok.places, hok.tx, hok.rx, hok.room⟩
  | rx =>
    have hfree := h.rx.freeCount
    have hid : e.id % 2 ^ 16 = e.id := by
      obtain ⟨-, -, hi, -⟩ := h.rx.give
      exact Nat.mod_eq_of_lt (by lia)
    rw [hid] at h1
    have hnum : (s.ring .rx).num = 16 := h.rx.1
    dsimp only at h1
    rw [hnum] at h1
    have hlocked : NetOk n [] 0 m (s.inFlight .tx) (e.id :: s.inFlight .rx) { s with lock := true } :=
      ⟨h.places, h.tx, h.rx, h.room⟩
    obtain ⟨s2, m2, h2, -, hfly, hok⟩ : ∃ s' m', netChain .rx e.len 16 { s with lock := true } e.id = some s' ∧
        s'.lock = true ∧ s'.inFlight = s.inFlight ∧ NetOk n [] 0 m' (s.inFlight .tx) (s.inFlight .rx) s' :=
      hlocked.chainRx 16 (by lia)
    cases h2.symm.trans h1
    refine ⟨rfl, m2, ?_⟩
    show NetOk n [] 0 m2 (s1.inFlight .tx) (s1.inFlight .rx) _
    rw [hfly]
    exact ⟨hok.places, hok.tx, hok.rx, hok.room⟩

theorem virtioNetRxWorker_ok {left : Nat} (h : NetSettled n [] 0 s) (hs : virtioNetRxWorker s left = some s') :
    NetSettled n [] 0 s' := by
  obtain ⟨hlock, m, hok⟩ := h
  have hplaces : ∀ a, s.places.count a + ([] : List Nat).count a = (List.range n).count a := hok.places
  have hroom := hok.room
  unfold virtioNetRxWorker at hs
  split at hs
  · rename_i hw
    rw [hw] at hroom
    split at hs
    · cases hs
      refine ⟨hlock, m, fun a => ?_, hok.tx, hok.rx, hroom⟩
      have h := hplaces a
      rw [places_count, hw] at h
      rw [places_count]
      exact h
    · cases hs
  · rename_i hw
    rw [hw] at hroom
    unfold spinLock at hs
    rw [hlock, if_neg (by decide), Option.map_some] at hs
    dsimp only at hs
    split at hs
    · cases hs
      refine ⟨rfl, m, fun a => ?_, hok.tx, hok.rx, hroom⟩
      have h := hplaces a
      rw [places_count, hw] at h
      rw [places_count]
      exact h
    · rename_i p ps hq
      cases hs
      refine ⟨rfl, m, fun a => ?_, hok.tx, hok.rx, ?_⟩
      · have h := hplaces a
        have hnone : RxPc.pull.packets.count a = 0 := rfl
        have hone : (RxPc.got p).packets.count a = [p].count a := rfl
        rw [places_count, hw, hq, count_cons_eq p a ps] at h
        rw [places_count]
        unfold spinUnlock
        dsimp only
        lia
      · have hnone : RxPc.pull.packets.length = 0 := rfl
        have hone : (RxPc.got p).packets.length = 1 := rfl
        rw [hq, List.length_cons] at hroom
        show m + ps.length + (RxPc.got p).packets.length + s.starter.due + 0 < RX_RING_SIZE
        lia
  · rename_i p hw
    rw [hw] at hroom
    have hsame : ∀ d, NetSettled n [] 0 { s with dlen := d, worker := .requeue p } := by
      refine fun d => ⟨hlock, m, fun a => ?_, hok.tx, hok.rx, hroom⟩
      have h := hplaces a
      rw [places_count, hw] at h
      rw [places_count]
      exact h
    split at hs
    · cases hs
      exact hsame s.dlen
    · cases hs
      exact hsame _
  · rename_i p hw
    rw [hw] at hroom
    have htaken : NetSettled n [p] 1 { s with worker := .pull } := by
      refine ⟨hlock, m, fun a => ?_, hok.tx, hok.rx, ?_⟩
      · have h := hplaces a
        have hnone : RxPc.pull.packets.count a = 0 := rfl
        have hone : (RxPc.requeue p).packets.count a = [p].count a := rfl
        have hnil : ([] : List Nat).count a = 0 := rfl
        rw [places_count, hw] at h
        rw [places_count]
        dsimp only
        lia
      · have hnone : RxPc.pull.packets.length = 0 := rfl
        have hone : (RxPc.requeue p).packets.length = 1 := rfl
        dsimp only
        lia
    exact virtioNetQueueRx_ok htaken hs

theorem virtioNetStart_ok (h : NetSettled n [] 0 s) (hs : virtioNetStart s alloc = some s') :
    NetSettled n [] 0 s' := by
  unfold virtioNetStart at hs
  split at hs
  · rename_i hw
    obtain ⟨hlock, m, hok⟩ := h
    have hroom := hok.room
    rw [hw] at hroom
    cases hs
    refine ⟨hlock, m, fun a => ?_, hok.tx, hok.rx, hroom⟩
    have h := hok.places a
    rw [places_count, hw] at h
    rw [places_count]
    exact h
  · cases hs
  · rename_i left hw
    obtain ⟨hlock, m, hok⟩ := h
    have hroom := hok.room
    rw [hw] at hroom
    split at hs
    · cases hs
      refine ⟨hlock, m, fun a => ?_, hok.tx, hok.rx, Nat.lt_of_succ_lt hroom⟩
      have h := hok.places a
      rw [places_count, hw] at h
      rw [places_count]
      exact h
    · rename_i p
      obtain ⟨s1, h1, rfl⟩ := Option.map_eq_some_iff.mp hs
      unfold pktbufAlloc at h1
      split at h1
      · rename_i hp
        cases h1
        refine ⟨hlock, m, fun a => ?_, hok.tx, hok.rx, hroom⟩
        have h := hok.places a
        have herase := count_erase_add hp a
        have hnone : (StartPc.left left.succ).packets.count a = 0 := rfl
        have hnil : ([] : List Nat).count a = 0 := rfl
        have hone : (StartPc.queue p left).packets.count a = [p].count a := rfl
        rw [places_count, hw] at h
        rw [places_count]
        dsimp only
        lia
      · cases h1
  · rename_i p left hw
    obtain ⟨hlock, m, hok⟩ := h
    have hroom := hok.room
    rw [hw] at hroom
    have htaken : NetSettled n [p] 1 { s with starter := .left left } := by
      refine ⟨hlock, m, fun a => ?_, hok.tx, hok.rx, ?_⟩
      · have h := hok.places a
        have hnone : (StartPc.left left).packets.count a = 0 := rfl
        have hone : (StartPc.queue p left).packets.count a = [p].count a := rfl
        have hnil : ([] : List Nat).count a = 0 := rfl
        rw [places_count, hw] at h
        rw [places_count]
        dsimp only
        lia
      · have hnone : (StartPc.left left).due = left := rfl
        have hone : (StartPc.queue p left).due = left + 1 := rfl
        dsimp only
        lia
    exact virtioNetQueueRx_ok htaken hs

theorem netStep_ok (h : NetSettled n [] 0 s) (hroom : TxRoom s op) (hs : netStep s op = some s') :
    NetSettled n [] 0 s' := by
  cases op with
  | alloc p =>
    obtain ⟨s1, h1, rfl⟩ := Option.map_eq_some_iff.mp hs
    obtain ⟨hlock, m, hok⟩ := pktbufAlloc_ok h h1
    exact ⟨hlock, m, hok.own⟩
  | free p =>
    obtain ⟨hlock, m, hok⟩ := h
    unfold netStep at hs
    dsimp only at hs
    split at hs
    · rename_i hp
      cases hs
      exact ⟨hlock, m, (hok.disown hp).free⟩
    · cases hs
  | queueTxPktbuf p2 =>
    obtain ⟨hlock, m, hok⟩ := h
    unfold netStep at hs
    dsimp only at hs
    split at hs
    · rename_i hp
      cases hs
      have hcall : NetSettled n ((TxPc.pktbuf p2 false).packets ++ []) 0 { s with owned := s.owned.erase p2 } :=
        ⟨hlock, m, hok.disown hp⟩
      exact push_ok hcall
    · cases hs
  | queueTx len alloc =>
    cases alloc with
    | none =>
      cases hs
      exact h
    | some p =>
      obtain ⟨s1, h1, rfl⟩ := Option.map_eq_some_iff.mp hs
      have hcall : NetSettled n ((TxPc.pktbuf p true).packets ++ []) 0 s1 := pktbufAlloc_ok h h1
      exact dlen_ok (push_ok hcall) _
  | run c alloc =>
    obtain ⟨hlock, m, hok⟩ := h
    unfold netStep at hs
    dsimp only at hs
    split at hs
    · rename_i hc
      have hpop := hok.pop hc
      rw [List.append_nil] at hpop
      have hcall : NetSettled n c.packets 0 { s with calls := s.calls.erase c } := ⟨hlock, m, hpop⟩
      apply virtioNetQueueTxPktbuf_ok hcall _ hs
      rintro p p2 copied rfl
      exact hroom
    · cases hs
  | irq ring e =>
    obtain ⟨hlock, m, hok⟩ := h
    unfold netStep at hs
    dsimp only at hs
    split at hs
    · rename_i he
      refine virtioNetIrqDriverCallback_ok ?_ ?_ hs
      · exact hlock
      · have hperm := List.perm_cons_erase he
        cases ring with
        | tx =>
          exact ⟨m, hok.places, hok.tx.heads_perm hperm, hok.rx, hok.room⟩
        | rx =>
          exact ⟨m, hok.places, hok.tx, hok.rx.heads_perm hperm, hok.room⟩
    · cases hs
  | worker left => exact virtioNetRxWorker_ok h hs
  | start alloc => exact virtioNetStart_ok h hs

theorem fresh_ok (h : s.Fresh n) : NetSettled n [] 0 s := by
  obtain ⟨hring, hs⟩ := h
  have hempty : ∀ ring, PendingIn (s.ring ring) (fun _ => none) [] 0 := by
    intro ring
    obtain ⟨p, hp⟩ := hring ring
    obtain ⟨-, hsame, hlay⟩ := virtioAllocRing_spec (by decide) hp
    obtain ⟨free, L⟩ := hlay fun _ => []
    refine ⟨by rw [hsame]; rfl, free, _, L, fun i => ⟨fun hi => (by cases hi), fun hi => (by cases hi)⟩, rfl⟩
  have hr := hempty
  rw [hs]
  refine ⟨rfl, 0, fun a => ?_, hr .tx, hr .rx, show 0 + 0 + 0 + 15 + 0 < 16 by decide⟩
  have hnil : ([] : List Nat).count a = 0 := rfl
  have hwait : RxPc.wait.packets.count a = 0 := rfl
  have hidle : StartPc.idle.packets.count a = 0 := rfl
  rw [places_count]
  dsimp only
  rw [Slots.held_none, Slots.held_none, List.flatMap_nil]
  lia

theorem NetSettled.owned (h : NetSettled n [] 0 s) : NetOwned n s := by
  obtain ⟨hlock, m, hok⟩ := h
  refine ⟨hlock, ?_, hok.tx, ⟨m, hok.rx⟩, fun i r halloc => ?_, fun i r halloc => ?_⟩
  · rw [List.perm_iff_count]
    exact hok.places
  · have hfree := hok.tx.freeCount
    by_cases hroom : s.txPendingCount + 2 ≤ 16
    · obtain ⟨i', j, r', halloc', hnext, -, -, -, -, -, hi, hj, -⟩ := hok.tx.allocTwo hroom 0 0
      cases halloc'.symm.trans halloc
      rw [hnext]
      exact ⟨hi, hj⟩
    · unfold virtioAllocDescChain at halloc
      rw [if_pos (by lia)] at halloc
      cases halloc
  · have hroom := hok.room
    unfold RX_RING_SIZE at hroom
    obtain ⟨i', r', halloc', -, -, hi, -⟩ := hok.rx.allocOne (by lia) 0
    cases halloc'.symm.trans halloc
    exact hi

theorem net_settled (h : (virtioNetSys n).Run TxRoom s) : NetSettled n [] 0 s :=
  h.invariant (fun _ h0 => fresh_ok h0) fun _ _ _ hok hroom hst => netStep_ok hok hroom hst

end

/-- **Network packet ownership.**  In a run whose transmissions find room each buffer is in exactly one place, the
count is that of the descriptors in flight, slots are free when they are written, and each step leaves the lock free. -/
theorem net_owned {n : Nat} {s : VirtioNet} (h : (virtioNetSys n).Run TxRoom s) : NetOwned n s :=
  (net_settled h).owned

/-- the driver set up in zeroed memory -/
def netOf (n : Nat) : VirtioNet where
  started := false
  lock := false
  rxEvent := false
  pendingTxPacket _ := none
  pendingRxPacket _ := none
  txPendingCount := 0
  completedRxQueue := []
  ring _ := (List.range 16).foldl virtioFreeDesc (vringInit 16 ⟨fun _ => ⟨0, 0⟩, 0, fun _ => 0, 0, fun _ => ⟨0, 0⟩⟩)
  dlen _ := 0
  pool := List.range n
  owned := []
  calls := []
  worker := .wait
  starter := .idle
  inFlight _ := []

theorem fresh_netOf (n : Nat) : (netOf n).Fresh n := by
  refine ⟨fun _ => ⟨⟨fun _ => ⟨0, 0⟩, 0, fun _ => 0, 0, fun _ => ⟨0, 0⟩⟩, ?_⟩, rfl⟩
  unfold virtioAllocRing
  rw [if_neg (by decide)]
  rfl

/-- the buffer `p2` sent with the header `p` -/
def sendOps (p2 p : Nat) : List NetOp :=
  [.alloc p2, .queueTxPktbuf p2, .run (.pktbuf p2 false) (some p), .run (.queue p p2 false) none]

/-- a transmission, which comes back -/
theorem net_owned_one : ∃ s, Machine.execIf TxRoom netStep (netOf 2) (sendOps 0 1 ++ [.irq .tx ⟨14, 0⟩]) = some s ∧
    s.pool = [0, 1] ∧ NetOwned 2 s := by
  have hr : (virtioNetSys 2).Run TxRoom (netOf 2) := .init (fresh_netOf 2)
  obtain ⟨s, hs, hpool⟩ : ∃ s, Machine.execIf TxRoom netStep (netOf 2) (sendOps 0 1 ++ [.irq .tx ⟨14, 0⟩]) = some s ∧
      s.pool = [0, 1] := ⟨_, rfl, rfl⟩
  exact ⟨s, hs, hpool, net_owned (hr.execIf _ hs)⟩

/-- **The ninth transmission.**  Eight are in flight; it leaves without the unlock. -/
theorem net_owned_fails : ¬ ∀ n s, (virtioNetSys n).Reach s → NetOwned n s := by
  intro hall
  have hr : (virtioNetSys 18).Reach (netOf 18) := .init (fresh_netOf 18)
  obtain ⟨s, hs, hlock⟩ : ∃ s, Machine.exec netStep (netOf 18)
      ((List.range 9).flatMap fun i => sendOps (2 * i) (2 * i + 1)) = some s ∧ s.lock = true := ⟨_, rfl, rfl⟩
  have h := (hall 18 s (hr.exec _ hs)).lock
  rw [hlock] at h
  cases h

end LkHv
