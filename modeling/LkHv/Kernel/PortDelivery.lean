import LkHv.Kernel.PortGroup
import Mathlib.Algebra.BigOperators.Group.List.Basic
import Mathlib.Algebra.GroupWithZero.Nat

/-!
# Port delivery

`port_write` wakes one thread for each read port it writes to, however many packets it writes, and prefers the
threads on the group of the port to those on the port.

* `deliverySys`        threads that write and read, over any ports and groups;
* `Delivered`          each read port has handed out, in order, what was written to it; a thread waits only if
  every packet it could read has another thread on its way;
* `WriteExact`         a write reaches the read ports that have room for all of it, and says if one had not;
* `DeliveryGuard`      the guard;
* `start`, `start_init`  ports made by the calls of `portSys` are ones to start from;
* `port_delivery`      in runs under the guard every state is `Delivered`;
* `port_delivery_fails`  two packets written at once for two threads: one of them stays blocked.
-/

namespace LkHv
namespace Ports

/-- ports with threads that write and read them -/
structure Delivery where
  ports : Ports
  /-- the thread is in `port_read` -/
  calling : Nat → Bool
  /-- what was in the buffers at first -/
  first : Nat → List PortPacket
  /-- what `port_write` has put into the buffer of a read port -/
  accepted : Nat → List PortPacket
  /-- what `port_read` has returned from a read port -/
  received : Nat → List PortPacket

/-- the packets in the buffer of a port -/
def contentOf (s : Ports) (r : Nat) : List PortPacket := (s.buf r).elim [] PortBuf.content

/-- the read port has room for all the packets -/
def HasRoom (s : Ports) (pk : List PortPacket) (r : Nat) : Prop := (s.buf r).any fun b => pk.length ≤ b.avail

instance (s : Ports) (pk : List PortPacket) (r : Nat) : Decidable (s.HasRoom pk r) :=
  inferInstanceAs (Decidable (_ = true))

/-- the read ports that `port_write` writes to -/
def readersOf (s : Ports) (w : Nat) : List Nat :=
  match s.writePorts w with
  | some ⟨false, _, _, rpList⟩ => if (s.buf w).isSome then [] else rpList
  | _ => []

/-- what the end of a turn of `port_read` does -/
def finishRead (d : Delivery) (t : Nat) (r : Ports × ReadRet) : Delivery :=
  match r.2 with
  | .ret _ => { d with ports := r.1, calling := Function.update d.calling t false }
  | .packet q _ p => { d with ports := r.1, calling := Function.update d.calling t false
                              received := Function.update d.received q (d.received q ++ [p]) }
  | .blocks => { d with ports := r.1, calling := Function.update d.calling t true }

inductive DeliveryOp
  | write (port : Option Nat) (pk : Option (List PortPacket))
  | read (t timeout : Nat) (port : Option Nat) (out : Bool)
  /-- a thread that was woken runs again -/
  | resume (t : Nat)
  /-- `wait_queue_timeout_handler` for a thread on the queue of a port or group -/
  | timeout (t h : Nat)

def deliveryStep (d : Delivery) : DeliveryOp → Option Delivery
  | .write port pk =>
    some { d with
      ports := (d.ports.portWrite port pk).1
      accepted := fun r =>
        match port, pk with
        | some w, some pk =>
          if r ∈ d.ports.readersOf w ∧ d.ports.HasRoom pk r then d.accepted r ++ pk else d.accepted r
        | _, _ => d.accepted r }
  | .read t timeout port out =>
    if d.calling t then none else some (finishRead d t (d.ports.portRead t timeout port out))
  | .resume t =>
    match d.ports.ready.find? fun x => x.waiter.thread = t with
    | none => none
    | some x =>
      let s := { d.ports with ready := d.ports.ready.erase x }
      if x.ret = NO_ERROR then some (finishRead d t (s.portRead t x.waiter.timeout (some x.port) true))
      else some (finishRead d t (s, .ret x.ret))
  | .timeout t h =>
    match (d.ports.wait h).find? fun w => w.thread = t with
    | none => none
    | some w =>
      some { d with ports := { d.ports with
        wait := Function.update d.ports.wait h ((d.ports.wait h).erase w)
        ready := ⟨w, h, ERR_TIMED_OUT⟩ :: d.ports.ready } }

/-- ports made by calls as above, with anything in the buffers and nobody waiting -/
structure DeliveryInit (d : Delivery) : Prop where
  ports : PortsInv d.ports
  bufs : ∀ h b, d.ports.buf h = some b → b.Ok
  nobody : (∀ h, d.ports.wait h = []) ∧ d.ports.ready = []
  logs : (∀ r, d.first r = d.ports.contentOf r) ∧ (∀ r, d.accepted r = []) ∧ ∀ r, d.received r = []

def deliverySys : Machine Delivery DeliveryOp := .ofFun DeliveryInit deliveryStep

/-! ## the property -/

/-- the read ports that a thread reads from through a handle -/
def readable (s : Ports) (h : Nat) : List Nat := if (s.readPorts h).isSome then [h] else (s.groupList h).getD []

/-- the packets that are there for the threads on a handle -/
def packets (s : Ports) (h : Nat) : Nat := ((s.readable h).map fun r => (s.contentOf r).length).sum

/-- the threads on a handle that were woken to read and have not run since -/
def woken (s : Ports) (h : Nat) : Nat := s.ready.countP fun x => x.port = h ∧ x.ret = NO_ERROR

/-- nobody is left to run, and then nobody waits where there is a packet -/
def NoneStranded (s : Ports) : Prop := s.ready = [] → ∀ h, s.wait h ≠ [] → s.packets h = 0

/-- Every read port has handed out the packets it had and the packets written to it, each once, in order, up
to those in its buffer.  A thread waits only if there is another on its way for each packet it could read. -/
structure Delivered (d : Delivery) : Prop where
  inOrder : ∀ r, (d.ports.readPorts r).isSome → d.first r ++ d.accepted r = d.received r ++ d.ports.contentOf r
  served : ∀ h, d.ports.wait h ≠ [] → d.ports.packets h ≤ d.ports.woken h
  settled : d.ports.NoneStranded

/-- A write gives all of its packets to the read ports with room for them and nothing to the others, and
returns an error if there is one of those. -/
def WriteExact (s : Ports) (w : Nat) (pk : List PortPacket) : Prop :=
  (∀ r, (s.readPorts r).isSome → (s.portWrite (some w) (some pk)).1.contentOf r =
    if r ∈ s.readersOf w ∧ s.HasRoom pk r then s.contentOf r ++ pk else s.contentOf r) ∧
  (s.readersOf w ≠ [] → (s.portWrite (some w) (some pk)).2 =
    if ∃ r ∈ s.readersOf w, ¬ s.HasRoom pk r then ERR_PARTIAL_WRITE else NO_ERROR)

def Waiting (s : Ports) (h : Nat) : Prop := s.wait h ≠ [] ∨ 0 < s.woken h

instance (s : Ports) (h : Nat) : Decidable (s.Waiting h) := inferInstanceAs (Decidable (_ ∨ _))

/-- one packet, or one thread at most that waits on the port and one on its group -/
def FewWaiters (s : Ports) (pk : List PortPacket) (r : Nat) : Prop :=
  pk.length ≤ 1 ∨ ((s.wait r).length ≤ 1 ∧ ∀ g ∈ s.gportOf r, (s.wait g).length ≤ 1)

/-- nobody waits on the group of the port, or on a port of the group -/
def Unmixed (s : Ports) (h : Nat) : Prop :=
  (∀ g ∈ s.gportOf h, ¬ s.Waiting g) ∧ ∀ r ∈ (s.groupList h).getD [], ¬ s.Waiting r

/-- the guard: a write of several packets finds at most one thread to wake where there is room for it, and no
thread starts to wait on a port and its group while another waits on the other -/
def DeliveryGuard (d : Delivery) : DeliveryOp → Prop
  | .write (some w) (some pk) => ∀ r ∈ d.ports.readersOf w, d.ports.HasRoom pk r → d.ports.FewWaiters pk r
  | .read _ timeout (some h) _ => timeout ≠ 0 → d.ports.packets h = 0 → d.ports.Unmixed h
  | _ => True

instance (d : Delivery) (op : DeliveryOp) : Decidable (DeliveryGuard d op) := by
  unfold DeliveryGuard FewWaiters Unmixed
  split <;> infer_instance

/-! ## buffers -/

section
variable {s s' : Ports} {r w g h : Nat} {pk : List PortPacket}

/-- the invariant of the objects, with buffers in order -/
structure BufsOk (s : Ports) : Prop where
  ports : PortsInv s
  ok : ∀ h b, s.buf h = some b → b.Ok

theorem contentOf_eq {b : PortBuf} (h : s.buf r = some b) : s.contentOf r = b.content := by
  unfold contentOf
  rw [h]
  rfl

theorem contentOf_update {b : PortBuf} (h : s'.buf = Function.update s.buf r (some b)) :
    s'.contentOf = Function.update s.contentOf r b.content := by
  funext q
  unfold contentOf
  rw [h]
  by_cases e : q = r
  · subst e
    rw [Function.update_self, Function.update_self]
    rfl
  · rw [Function.update_of_ne e, Function.update_of_ne e]

theorem BufsOk.buf (hi : BufsOk s) (hr : (s.readPorts r).isSome) : ∃ b, s.buf r = some b ∧ b.Ok := by
  obtain ⟨b, hb⟩ := Option.isSome_iff_exists.mp (hi.ports.rbuf r hr)
  exact ⟨b, hb, hi.ok r b hb⟩

/-- another buffer in the place of one -/
theorem BufsOk.rebuf (hi : BufsOk s) {b b' : PortBuf} (hb : s.buf r = some b) (hb' : b'.Ok)
    (wait : Nat → List PortWaiter) (ready : List PortReady) :
    BufsOk { s with buf := Function.update s.buf r (some b'), wait := wait, ready := ready } := by
  have hs : ∀ q, (Function.update s.buf r (some b') q).isSome = (s.buf q).isSome := by
    intro q
    by_cases e : q = r
    · subst e
      rw [Function.update_self, hb]
      rfl
    · rw [Function.update_of_ne e]
  have hp := hi.ports
  refine ⟨⟨hp.groups, hp.readers, hp.named, hp.names, fun v vp hv => ?_, fun q hq => ?_, hp.write, hp.read,
    hp.unlocked, hp.deleted⟩, fun q c hc => ?_⟩
  · dsimp only
    rw [hs]
    exact hp.wbuf v vp hv
  · dsimp only
    rw [hs]
    exact hp.rbuf q hq
  · dsimp only at hc
    by_cases e : q = r
    · subst e
      rw [Function.update_self] at hc
      cases hc
      exact hb'
    · rw [Function.update_of_ne e] at hc
      exact hi.ok q c hc

theorem BufsOk.waits (hi : BufsOk s) (wait : Nat → List PortWaiter) (ready : List PortReady) :
    BufsOk { s with wait := wait, ready := ready } :=
  ⟨hi.ports.waits wait ready, hi.ok⟩

/-! ## one reader of a write -/

theorem wakeOne_cases (s : Ports) (h : Nat) : (s.wait h = [] ∧ s.wakeOne h = (s, 0)) ∨
    ∃ w l, s.wait h = w :: l ∧ s.wakeOne h = ({ s with wait := Function.update s.wait h l
                                                       ready := ⟨w, h, NO_ERROR⟩ :: s.ready }, 1) := by
  unfold Ports.wakeOne
  cases hw : s.wait h with
  | nil => exact .inl ⟨rfl, rfl⟩
  | cons w l => exact .inr ⟨w, l, rfl, rfl⟩

/-- whom `port_write` wakes for a read port: nobody, or the first on the group or, if there is none, on the
port -/
def Wakes (s : Ports) (r : Nat) (wait : Nat → List PortWaiter) (ready : List PortReady) : Prop :=
  (s.wait r = [] ∧ (∀ g, s.gportOf r = some g → s.wait g = []) ∧ wait = s.wait ∧ ready = s.ready) ∨
    ∃ q w l, (s.gportOf r = some q ∨ (q = r ∧ ∀ g, s.gportOf r = some g → s.wait g = [])) ∧ s.wait q = w :: l ∧
      wait = Function.update s.wait q l ∧ ready = ⟨w, q, NO_ERROR⟩ :: s.ready

theorem wakeReader_cases {rp : ReadPort} (hr : s.readPorts r = some rp) (bf : Nat → Option PortBuf) :
    ∃ wait ready, s.Wakes r wait ready ∧ wakeReader { s with buf := bf } r rp.gport =
      { s with buf := bf, wait := wait, ready := ready } := by
  have hg := gportOf_eq hr
  have hwake := wakeOne_cases { s with buf := bf } r
  unfold wakeReader
  cases hgp : rp.gport with
  | none =>
    have hno : ∀ g, s.gportOf r = some g → s.wait g = [] := by
      intro g hg'
      rw [hg, hgp] at hg'
      cases hg'
    rcases hwake with ⟨h5, h6⟩ | ⟨w, l, h5, h6⟩
    · exact ⟨s.wait, s.ready, .inl ⟨h5, hno, rfl, rfl⟩, congrArg Prod.fst h6⟩
    · exact ⟨_, _, .inr ⟨r, w, l, .inr ⟨rfl, hno⟩, h5, rfl, rfl⟩, congrArg Prod.fst h6⟩
  | some g =>
    dsimp only
    rcases wakeOne_cases { s with buf := bf } g with ⟨h5, h6⟩ | ⟨w, l, h5, h6⟩
    · have hno : ∀ q, s.gportOf r = some q → s.wait q = [] := by
        intro q hq
        rw [hg, hgp] at hq
        cases hq
        exact h5
      rw [if_pos (by rw [h6])]
      rcases hwake with ⟨h7, h8⟩ | ⟨w, l, h7, h8⟩
      · exact ⟨s.wait, s.ready, .inl ⟨h7, hno, rfl, rfl⟩, congrArg Prod.fst h8⟩
      · exact ⟨_, _, .inr ⟨r, w, l, .inr ⟨rfl, hno⟩, h7, rfl, rfl⟩, congrArg Prod.fst h8⟩
    · rw [if_neg (by rw [h6]; exact Nat.one_ne_zero)]
      exact ⟨_, _, .inr ⟨g, w, l, .inl (hg.trans hgp), h5, rfl, rfl⟩, congrArg Prod.fst h6⟩

theorem writeReader_cases (hi : BufsOk s) (hr : (s.readPorts r).isSome) (pk : List PortPacket) (st : Int) :
    (¬ s.HasRoom pk r ∧ writeReader pk (s, st) r = (s, ERR_PARTIAL_WRITE)) ∨
      ∃ b b' wait ready, s.HasRoom pk r ∧ s.buf r = some b ∧ b'.Ok ∧ b'.content = b.content ++ pk ∧
        s.Wakes r wait ready ∧ writeReader pk (s, st) r =
          ({ s with buf := Function.update s.buf r (some b'), wait := wait, ready := ready }, st) := by
  obtain ⟨b, hb, hok⟩ := hi.buf hr
  obtain ⟨rp, hrp⟩ := Option.isSome_iff_exists.mp hr
  have hroom : s.HasRoom pk r ↔ pk.length ≤ b.avail := by
    unfold HasRoom
    rw [hb]
    simp
  rcases PortBuf.bufWrite_spec hok pk with ⟨h1, h2⟩ | ⟨h1, b', h2, h3, h4⟩
  · have hw : writeReader pk (s, st) r = (s, ERR_PARTIAL_WRITE) := by
      unfold writeReader
      simp only [hb, hrp, h2]
    rw [hw, hroom]
    exact .inl ⟨by omega, rfl⟩
  · have hw : writeReader pk (s, st) r =
        (wakeReader { s with buf := Function.update s.buf r (some b') } r rp.gport, st) := by
      unfold writeReader
      simp only [hb, hrp, h2]
    obtain ⟨wait, ready, h5, h6⟩ := wakeReader_cases hrp (Function.update s.buf r (some b'))
    exact .inr ⟨b, b', wait, ready, hroom.mpr h1, hb, h3, h4, h5, hw.trans (congrArg (·, st) h6)⟩

/-- ports and groups as before -/
structure SameObjects (s s' : Ports) : Prop where
  readPorts : s'.readPorts = s.readPorts
  writePorts : s'.writePorts = s.writePorts
  groups : s'.groups = s.groups

theorem SameObjects.refl (s : Ports) : SameObjects s s := ⟨rfl, rfl, rfl⟩

/-- the loop of `port_write` -/
theorem foldl_writeReader (l : List Nat) (hl : l.Nodup) (hi : BufsOk s) (hr : ∀ r ∈ l, (s.readPorts r).isSome)
    (pk : List PortPacket) (st : Int) :
    BufsOk (l.foldl (writeReader pk) (s, st)).1 ∧ SameObjects s (l.foldl (writeReader pk) (s, st)).1 ∧
      (∀ q, (l.foldl (writeReader pk) (s, st)).1.contentOf q =
        if q ∈ l ∧ s.HasRoom pk q then s.contentOf q ++ pk else s.contentOf q) ∧
      (l.foldl (writeReader pk) (s, st)).2 = if ∃ r ∈ l, ¬ s.HasRoom pk r then ERR_PARTIAL_WRITE else st := by
  induction l generalizing s st with
  | nil => exact ⟨hi, .refl s, fun q => (if_neg (by simp)).symm, (if_neg (by simp)).symm⟩
  | cons r l ih =>
    obtain ⟨hrl, hl⟩ := List.nodup_cons.mp hl
    rw [List.foldl_cons]
    rcases writeReader_cases hi (hr r List.mem_cons_self) pk st with ⟨h1, h2⟩ |
      ⟨b, b', wait, ready, h1, hb, h3, h4, h5, h2⟩
    · rw [h2]
      obtain ⟨i1, i2, i3, i4⟩ := ih hl hi (fun q hq => hr q (List.mem_cons_of_mem _ hq)) ERR_PARTIAL_WRITE
      refine ⟨i1, i2, fun q => ?_, ?_⟩
      · rw [i3 q]
        by_cases e : q = r
        · subst e
          rw [if_neg fun hc => h1 hc.2, if_neg fun hc => h1 hc.2]
        · simp only [List.mem_cons, e, false_or]
      · rw [i4, ite_self, if_pos ⟨r, List.mem_cons_self, h1⟩]
    · rw [h2]
      have hroom : ∀ q ∈ l, HasRoom { s with buf := Function.update s.buf r (some b'), wait := wait, ready := ready }
          pk q ↔ s.HasRoom pk q := by
        intro q hq
        unfold HasRoom
        dsimp only
        rw [Function.update_of_ne (by rintro rfl; exact hrl hq)]
      obtain ⟨i1, i2, i3, i4⟩ := ih hl (hi.rebuf hb h3 wait ready) (fun q hq => hr q (List.mem_cons_of_mem _ hq)) st
      refine ⟨i1, ⟨i2.readPorts, i2.writePorts, i2.groups⟩, fun q => ?_, ?_⟩
      · rw [i3 q, contentOf_update (s := s) rfl]
        by_cases e : q = r
        · subst e
          rw [if_neg (show ¬ (q ∈ l ∧ _) from fun hc => hrl hc.1), Function.update_self,
            if_pos (show q ∈ q :: l ∧ _ from ⟨List.mem_cons_self, h1⟩), contentOf_eq hb, h4]
        · rw [Function.update_of_ne e]
          by_cases hq : q ∈ l
          · simp only [hroom q hq, List.mem_cons, e, false_or]
          · rw [if_neg fun hc => hq hc.1, if_neg]
            intro hc
            rcases List.mem_cons.mp hc.1 with h6 | h6
            · exact e h6
            · exact hq h6
      · rw [i4]
        congr 1
        apply propext
        constructor
        · rintro ⟨q, hq, hn⟩
          exact ⟨q, List.mem_cons_of_mem _ hq, fun hc => hn ((hroom q hq).mpr hc)⟩
        · rintro ⟨q, hq, hn⟩
          rcases List.mem_cons.mp hq with rfl | hq
          · exact absurd h1 hn
          · exact ⟨q, hq, fun hc => hn ((hroom q hq).mp hc)⟩

/-! ## threads and packets -/

theorem readable_nodup (hi : PortsInv s) (h : Nat) : (s.readable h).Nodup := by
  unfold readable
  split
  · exact List.nodup_singleton h
  · cases hl : s.groupList h with
    | none => exact List.nodup_nil
    | some l => exact hi.groups.nodup hl

theorem mem_readable (hi : PortsInv s) (hr : r ∈ s.readable h) :
    (s.readPorts r).isSome ∧ (r = h ∨ s.gportOf r = some h) := by
  unfold readable at hr
  split at hr
  · rename_i hs
    rw [List.mem_singleton] at hr
    exact ⟨hr ▸ hs, .inl hr⟩
  · cases hl : s.groupList h with
    | none =>
      rw [hl] at hr
      cases hr
    | some l =>
      rw [hl] at hr
      have hg := (hi.groups.mem hl r).mp hr
      obtain ⟨rp, hrp, -⟩ := readPorts_of_gport hg
      exact ⟨by rw [hrp]; rfl, .inr hg⟩

theorem readable_same (ho : SameObjects s s') : s'.readable h = s.readable h := by
  unfold readable groupList
  rw [ho.readPorts, ho.groups]

theorem gportOf_same (ho : SameObjects s s') : s'.gportOf = s.gportOf := by
  unfold gportOf
  rw [ho.readPorts]

/-- a sum with one summand changed -/
theorem sum_update {l : List Nat} (hl : l.Nodup) (f : Nat → Nat) (r n : Nat) :
    (r ∉ l → (l.map (Function.update f r n)).sum = (l.map f).sum) ∧
      (r ∈ l → (l.map (Function.update f r n)).sum + f r = (l.map f).sum + n) := by
  induction l with
  | nil => exact ⟨fun _ => rfl, fun h => by cases h⟩
  | cons a l ih =>
    obtain ⟨hal, hl⟩ := List.nodup_cons.mp hl
    obtain ⟨h1, h2⟩ := ih hl
    simp only [List.map_cons, List.sum_cons]
    refine ⟨fun hr => ?_, fun hr => ?_⟩
    · rw [List.mem_cons, not_or] at hr
      rw [Function.update_of_ne (Ne.symm hr.1), h1 hr.2]
    · by_cases e : a = r
      · subst e
        rw [Function.update_self, h1 hal]
        lia
      · rw [Function.update_of_ne e]
        have := h2 ((List.mem_cons.mp hr).resolve_left (Ne.symm e))
        lia

/-- the packets for a handle, with the content of one buffer changed -/
theorem packets_update (hi : PortsInv s) (ho : SameObjects s s') {c : List PortPacket}
    (hc : s'.contentOf = Function.update s.contentOf r c) (h : Nat) :
    (r ∉ s.readable h → s'.packets h = s.packets h) ∧
      (r ∈ s.readable h → s'.packets h + (s.contentOf r).length = s.packets h + c.length) := by
  have hf : (fun q => (s'.contentOf q).length) = Function.update (fun q => (s.contentOf q).length) r c.length := by
    funext q
    rw [hc]
    by_cases e : q = r
    · subst e
      rw [Function.update_self, Function.update_self]
    · rw [Function.update_of_ne e, Function.update_of_ne e]
  unfold packets
  rw [readable_same ho, hf]
  exact sum_update (readable_nodup hi h) _ r c.length

theorem packets_same (ho : SameObjects s s') (hb : s'.buf = s.buf) (h : Nat) : s'.packets h = s.packets h := by
  unfold packets contentOf
  rw [readable_same ho, hb]

/-- a thread waits only if every packet it could read has another thread on its way, and not on a port and on
its group at a time -/
structure WaitsInv (s : Ports) : Prop where
  served : ∀ h, s.wait h ≠ [] → s.packets h ≤ s.woken h
  unmixed : ∀ r g, s.gportOf r = some g → s.Waiting r → ¬ s.Waiting g

theorem woken_cons (x : PortReady) (h : Nat) (hs : s'.ready = x :: s.ready) :
    s'.woken h = s.woken h + if x.port = h ∧ x.ret = NO_ERROR then 1 else 0 := by
  unfold woken
  rw [hs, List.countP_cons]
  simp

/-- one read port of a write -/
theorem WaitsInv.write (hw : WaitsInv s) (hi : BufsOk s) {b b' : PortBuf} {wait : Nat → List PortWaiter}
    {ready : List PortReady} (hb : s.buf r = some b) (hc : b'.content = b.content ++ pk)
    (hwk : s.Wakes r wait ready) (hf : s.FewWaiters pk r) :
    WaitsInv { s with buf := Function.update s.buf r (some b'), wait := wait, ready := ready } ∧
      ∀ q, (wait q).length ≤ (s.wait q).length := by
  let t : Ports := { s with buf := Function.update s.buf r (some b'), wait := wait, ready := ready }
  have ho : SameObjects s t := ⟨rfl, rfl, rfl⟩
  have hct : t.contentOf = Function.update s.contentOf r b'.content := contentOf_update rfl
  have hpk := packets_update hi.ports ho hct
  rcases hwk with ⟨h1, h2, rfl, rfl⟩ | ⟨q, w, l, h1, h2, rfl, rfl⟩
  · refine ⟨⟨fun h hh => ?_, hw.unmixed⟩, fun q => le_refl _⟩
    have hn : r ∉ s.readable h := by
      intro hr
      rcases (mem_readable hi.ports hr).2 with rfl | hg
      · exact hh h1
      · exact hh (h2 h hg)
    exact ((hpk h).1 hn).trans_le (hw.served h hh)
  · have hwq : s.wait q ≠ [] := by
      rw [h2]
      exact List.cons_ne_nil _ _
    have hwoken := fun h => @woken_cons s t ⟨w, q, NO_ERROR⟩ h rfl
    have hwait : ∀ h, t.Waiting h → s.Waiting h := by
      intro h hh
      by_cases e : h = q
      · subst e
        exact .inl hwq
      · rcases hh with hh | hh
        · change Function.update s.wait q l h ≠ [] at hh
          rw [Function.update_of_ne e] at hh
          exact .inl hh
        · rw [hwoken h, if_neg fun hc => e hc.1.symm] at hh
          exact .inr hh
    refine ⟨⟨fun h hh => ?_, fun x g hg hx hgw => hw.unmixed x g hg (hwait x hx) (hwait g hgw)⟩, fun h => ?_⟩
    · change Function.update s.wait q l h ≠ [] at hh
      show t.packets h ≤ t.woken h
      by_cases e : h = q
      · subst e
        rw [Function.update_self] at hh
        have h3 := hw.served h hwq
        have hlen : 2 ≤ (s.wait h).length := by
          rw [h2, List.length_cons]
          have := List.length_pos_iff.mpr hh
          lia
        have hone : pk.length ≤ 1 := by
          rcases hf with hf | ⟨hf1, hf2⟩
          · exact hf
          · rcases h1 with h1 | ⟨rfl, -⟩
            · have := hf2 h h1
              lia
            · lia
        rw [hwoken h, if_pos ⟨rfl, rfl⟩]
        by_cases hr : r ∈ s.readable h
        · have := (hpk h).2 hr
          rw [hc, List.length_append, contentOf_eq hb] at this
          lia
        · rw [(hpk h).1 hr]
          lia
      · rw [Function.update_of_ne e] at hh
        have hn : r ∉ s.readable h := by
          intro hr
          rcases (mem_readable hi.ports hr).2 with e' | hg
          · rcases h1 with h1 | ⟨rfl, -⟩
            · exact hw.unmixed r q h1 (.inl (e' ▸ hh)) (.inl hwq)
            · exact e e'.symm
          · rcases h1 with h1 | ⟨-, h1⟩
            · exact e (Option.some.inj (hg.symm.trans h1))
            · exact hh (h1 h hg)
        rw [(hpk h).1 hn, hwoken h]
        have := hw.served h hh
        lia
    · by_cases e : h = q
      · subst e
        rw [Function.update_self, h2, List.length_cons]
        lia
      · rw [Function.update_of_ne e]

/-- the loop of `port_write` -/
theorem WaitsInv.foldl (l : List Nat) (hl : l.Nodup) (hw : WaitsInv s) (hi : BufsOk s)
    (hr : ∀ r ∈ l, (s.readPorts r).isSome) (st : Int) (hf : ∀ r ∈ l, s.HasRoom pk r → s.FewWaiters pk r) :
    WaitsInv (l.foldl (writeReader pk) (s, st)).1 := by
  induction l generalizing s st with
  | nil => exact hw
  | cons r l ih =>
    obtain ⟨hrl, hl⟩ := List.nodup_cons.mp hl
    rw [List.foldl_cons]
    rcases writeReader_cases hi (hr r List.mem_cons_self) pk st with ⟨h1, h2⟩ |
      ⟨b, b', wait, ready, h1, hb, h3, h4, h5, h2⟩
    · rw [h2]
      exact ih hl hw hi (fun q hq => hr q (List.mem_cons_of_mem _ hq)) _ fun q hq => hf q (List.mem_cons_of_mem _ hq)
    · rw [h2]
      obtain ⟨i1, i2⟩ := hw.write hi hb h4 h5 (hf r List.mem_cons_self h1)
      refine ih hl i1 (hi.rebuf hb h3 wait ready) (fun q hq => hr q (List.mem_cons_of_mem _ hq)) st fun q hq hroom => ?_
      have hroom' : s.HasRoom pk q := by
        unfold HasRoom at hroom ⊢
        dsimp only at hroom
        rwa [Function.update_of_ne (by rintro rfl; exact hrl hq)] at hroom
      rcases hf q (List.mem_cons_of_mem _ hq) hroom' with h6 | ⟨h6, h7⟩
      · exact .inl h6
      · exact .inr ⟨(i2 q).trans h6, fun g hg => (i2 g).trans (h7 g hg)⟩

/-! ## one turn of a reader -/

/-- a packet is taken from the buffer -/
structure Takes (s : Ports) (r : Nat) (p : PortPacket) (s' : Ports) : Prop where
  port : (s.readPorts r).isSome
  same : SameObjects s s'
  waits : s'.wait = s.wait ∧ s'.ready = s.ready
  bufs : BufsOk s'
  content : ∃ c, s.contentOf r = p :: c ∧ s'.contentOf = Function.update s.contentOf r c

theorem readPacket_cases (hi : BufsOk s) (hr : (s.readPorts r).isSome) :
    (s.contentOf r = [] ∧ s.readPacket r = none) ∨
      ∃ ctx p s', s.readPacket r = some (s', .packet r ctx p) ∧ s.Takes r p s' := by
  obtain ⟨b, hb, hok⟩ := hi.buf hr
  obtain ⟨rp, hrp⟩ := Option.isSome_iff_exists.mp hr
  unfold readPacket
  rw [hb, hrp]
  dsimp only
  rcases PortBuf.bufRead_spec hok with ⟨h1, h2⟩ | ⟨p, b', h1, h2, h3⟩
  · rw [h2, contentOf_eq hb]
    exact .inl ⟨h1, rfl⟩
  · rw [h1]
    refine .inr ⟨rp.ctx, p, _, rfl, hr, ⟨rfl, rfl, rfl⟩, ⟨rfl, rfl⟩, hi.rebuf hb h2 s.wait s.ready, b'.content, ?_,
      contentOf_update rfl⟩
    rw [contentOf_eq hb]
    exact h3

theorem findSome_readPacket (hi : BufsOk s) (l : List Nat) (hr : ∀ r ∈ l, (s.readPorts r).isSome) :
    ((∀ r ∈ l, s.contentOf r = []) ∧ l.findSome? s.readPacket = none) ∨
      ∃ r ∈ l, ∃ ctx p s', l.findSome? s.readPacket = some (s', .packet r ctx p) ∧ s.Takes r p s' := by
  induction l with
  | nil => exact .inl ⟨fun r hr => (by cases hr), rfl⟩
  | cons a l ih =>
    rcases readPacket_cases hi (hr a List.mem_cons_self) with ⟨h1, h2⟩ | ⟨ctx, p, s', h1, h2⟩
    · rw [List.findSome?_cons, h2]
      rcases ih fun r h => hr r (List.mem_cons_of_mem _ h) with ⟨h3, h4⟩ | ⟨r, h3, h4⟩
      · refine .inl ⟨fun r h => ?_, h4⟩
        rcases List.mem_cons.mp h with rfl | h
        · exact h1
        · exact h3 r h
      · exact .inr ⟨r, List.mem_cons_of_mem _ h3, h4⟩
    · rw [List.findSome?_cons, h1]
      exact .inr ⟨a, List.mem_cons_self, ctx, p, s', rfl, h2⟩

theorem packets_zero (h : ∀ r ∈ s.readable g, s.contentOf r = []) : s.packets g = 0 := by
  unfold packets
  apply List.sum_eq_zero
  intro n hn
  obtain ⟨r, hr, rfl⟩ := List.mem_map.mp hn
  rw [h r hr]
  rfl

/-- `port_read` fails, hands out a packet, or waits because there is none -/
theorem portRead_cases (hi : BufsOk s) (t timeout h : Nat) (out : Bool) :
    (∃ e, s.portRead t timeout (some h) out = (s, .ret e) ∧ (out = true → s.packets h = 0)) ∨
      (∃ r ∈ s.readable h, ∃ ctx p s', s.portRead t timeout (some h) out = (s', .packet r ctx p) ∧ s.Takes r p s') ∨
        (timeout ≠ 0 ∧ s.packets h = 0 ∧ s.portRead t timeout (some h) out =
          ({ s with wait := Function.update s.wait h (s.wait h ++ [⟨t, timeout⟩]) }, .blocks)) := by
  -- what is left to do without a packet
  have hblock : s.packets h = 0 → (∃ e, s.block h t timeout = (s, .ret e)) ∨ (timeout ≠ 0 ∧
      s.block h t timeout = ({ s with wait := Function.update s.wait h (s.wait h ++ [⟨t, timeout⟩]) }, .blocks)) := by
    intro _
    unfold block
    split
    · exact .inl ⟨_, rfl⟩
    · rename_i hto
      exact .inr ⟨hto, rfl⟩
  cases out with
  | false => exact .inl ⟨_, rfl, fun h => by cases h⟩
  | true =>
    unfold portRead
    dsimp only
    rw [if_neg (by decide)]
    cases hr : s.readPorts h with
    | some rp =>
      have hrs : (s.readPorts h).isSome := by rw [hr]; rfl
      have hre : s.readable h = [h] := by
        unfold readable
        rw [if_pos hrs]
      dsimp only
      rcases readPacket_cases hi hrs with ⟨h1, h2⟩ | ⟨ctx, p, s', h1, h2⟩
      · rw [h2, Option.getD_none]
        have hz : s.packets h = 0 := packets_zero fun r hr => by
          rw [hre, List.mem_singleton] at hr
          rw [hr, h1]
        rcases hblock hz with ⟨e, he⟩ | ⟨hto, he⟩
        · exact .inl ⟨e, he, fun _ => hz⟩
        · exact .inr (.inr ⟨hto, hz, he⟩)
      · rw [h1]
        exact .inr (.inl ⟨h, by rw [hre]; exact List.mem_singleton_self h, ctx, p, s', rfl, h2⟩)
    | none =>
      cases hg : s.groups h with
      | some pg =>
        have hre : s.readable h = pg.rpList := by
          unfold readable
          rw [if_neg (by rw [hr]; decide), groupList_eq hg]
          rfl
        have hall : ∀ r ∈ pg.rpList, (s.readPorts r).isSome := fun r hr => (mem_readable hi.ports (hre ▸ hr)).1
        dsimp only
        rcases findSome_readPacket hi pg.rpList hall with ⟨h1, h2⟩ | ⟨r, h1, ctx, p, s', h2, h3⟩
        · rw [h2, Option.getD_none]
          have hz : s.packets h = 0 := packets_zero fun r hr => h1 r (hre ▸ hr)
          rcases hblock hz with ⟨e, he⟩ | ⟨hto, he⟩
          · exact .inl ⟨e, he, fun _ => hz⟩
          · exact .inr (.inr ⟨hto, hz, he⟩)
        · rw [h2]
          exact .inr (.inl ⟨r, hre ▸ h1, ctx, p, s', rfl, h3⟩)
      | none =>
        refine .inl ⟨_, rfl, fun _ => packets_zero fun r hr' => ?_⟩
        unfold readable groupList at hr'
        rw [if_neg (by rw [hr]; decide), hg] at hr'
        cases hr'

/-- the packets that are left when one was taken -/
theorem Takes.packets {p : PortPacket} (ht : Takes s r p s') (hi : PortsInv s) (k : Nat) :
    s'.packets k ≤ s.packets k ∧ (r ∈ s.readable k → s'.packets k + 1 = s.packets k) := by
  obtain ⟨c, h1, h2⟩ := ht.content
  obtain ⟨h3, h4⟩ := packets_update hi ht.same h2 k
  rw [h1, List.length_cons] at h4
  by_cases hr : r ∈ s.readable k
  · have := h4 hr
    exact ⟨by lia, fun _ => by lia⟩
  · exact ⟨(h3 hr).le, fun h => absurd h hr⟩

/-- a turn of a thread on the handle `h` -/
theorem WaitsInv.turn (hw : WaitsInv s) (hi : PortsInv s) (ho : SameObjects s s')
    (hwait : ∀ k, k ≠ h → s'.wait k = s.wait k) (hwoken : ∀ k, k ≠ h → s'.woken k = s.woken k)
    (hpk : ∀ k, s'.packets k ≤ s.packets k) (hh : s'.wait h ≠ [] → s'.packets h ≤ s'.woken h)
    (hW : s'.Waiting h → s.Waiting h ∨
      ((∀ g, s.gportOf h = some g → ¬ s.Waiting g) ∧ ∀ r, s.gportOf r = some h → ¬ s.Waiting r)) : WaitsInv s' := by
  have hback : ∀ k, k ≠ h → s'.Waiting k → s.Waiting k := by
    intro k hk hx
    unfold Waiting at *
    rwa [hwait k hk, hwoken k hk] at hx
  refine ⟨fun k hk => ?_, fun r g hg hr hgw => ?_⟩
  · by_cases e : k = h
    · subst e
      exact hh hk
    · rw [hwait k e] at hk
      rw [hwoken k e]
      exact (hpk k).trans (hw.served k hk)
  · rw [gportOf_same ho] at hg
    have hrg : r ≠ g := by
      rintro rfl
      obtain ⟨rp, hrp, -⟩ := readPorts_of_gport hg
      have h1 := hi.groups.owner hg
      unfold groupList at h1
      rw [hi.read r (by rw [hrp]; rfl)] at h1
      cases h1
    by_cases e1 : r = h
    · have hgo := hback g (fun e => hrg (e1.trans e.symm)) hgw
      subst e1
      rcases hW hr with h1 | ⟨h1, -⟩
      · exact hw.unmixed r g hg h1 hgo
      · exact h1 g hg hgo
    · by_cases e2 : g = h
      · have hro := hback r e1 hr
        subst e2
        rcases hW hgw with h1 | ⟨-, h1⟩
        · exact hw.unmixed r g hg hro h1
        · exact h1 r hg hro
      · exact hw.unmixed r g hg (hback r e1 hr) (hback g e2 hgw)

/-! ## runs -/

structure DeliveryInv (d : Delivery) : Prop where
  bufs : BufsOk d.ports
  inOrder : ∀ r, (d.ports.readPorts r).isSome → d.first r ++ d.accepted r = d.received r ++ d.ports.contentOf r
  waits : WaitsInv d.ports

variable {d d' : Delivery}

theorem DeliveryInv.delivered (h : DeliveryInv d) : Delivered d where
  inOrder := h.inOrder
  served := h.waits.served
  settled hr k hk := by
    have := h.waits.served k hk
    have hz : d.ports.woken k = 0 := by
      unfold woken
      rw [hr]
      rfl
    omega

theorem DeliveryInv.init (h : DeliveryInit d) : DeliveryInv d where
  bufs := ⟨h.ports, h.bufs⟩
  inOrder r _ := by
    rw [h.logs.1, h.logs.2.1, h.logs.2.2, List.append_nil, List.nil_append]
  waits := by
    have hno : ∀ k, ¬ d.ports.Waiting k := by
      intro k hk
      rcases hk with hk | hk
      · exact hk (h.nobody.1 k)
      · unfold woken at hk
        rw [h.nobody.2] at hk
        exact absurd hk (Nat.lt_irrefl 0)
    exact ⟨fun k hk => absurd (.inl hk) (hno k), fun r g _ hr => absurd hr (hno r)⟩

/-- the readers of an open write port are read ports, each one once -/
theorem readersOf_spec (hi : PortsInv s) (w : Nat) :
    (s.readersOf w).Nodup ∧ ∀ r ∈ s.readersOf w, (s.readPorts r).isSome := by
  unfold readersOf
  split
  · rename_i mode name rpList hw
    split
    · exact ⟨List.nodup_nil, fun r hr => by cases hr⟩
    · have hl := readerList_eq hw
      refine ⟨hi.readers.nodup hl, fun r hr => ?_⟩
      obtain ⟨rp, hrp, -⟩ := readPorts_of_wport ((hi.readers.mem hl r).mp hr)
      rw [hrp]
      rfl
  · exact ⟨List.nodup_nil, fun r hr => by cases hr⟩

/-- a write either goes to the readers or leaves the read ports and the threads alone -/
theorem portWrite_cases (hi : BufsOk s) (w : Nat) (pk : List PortPacket) :
    (s.portWrite (some w) (some pk)) = (s.readersOf w).foldl (writeReader pk) (s, NO_ERROR) ∨
      (s.readersOf w = [] ∧ ((s.portWrite (some w) (some pk)).1 = s ∨ ∃ b b', s.buf w = some b ∧ b'.Ok ∧
        (s.writePorts w).isSome ∧
        (s.portWrite (some w) (some pk)).1 = { s with buf := Function.update s.buf w (some b') })) := by
  unfold portWrite readersOf
  dsimp only
  cases hw : s.writePorts w with
  | none => exact .inr ⟨rfl, .inl rfl⟩
  | some wp =>
    obtain ⟨closed, mode, name, rpList⟩ := wp
    cases closed with
    | true => exact .inr ⟨rfl, .inl rfl⟩
    | false =>
      cases hb : s.buf w with
      | none => exact .inl rfl
      | some b =>
        refine .inr ⟨rfl, ?_⟩
        dsimp only
        rcases PortBuf.bufWrite_spec (hi.ok w b hb) pk with ⟨-, h2⟩ | ⟨-, b', h2, h3, -⟩
        · rw [h2]
          exact .inl rfl
        · rw [h2]
          exact .inr ⟨b, b', rfl, h3, rfl, rfl⟩

/-- what a write does to the read ports -/
theorem portWrite_spec (hi : BufsOk s) (w : Nat) (pk : List PortPacket) :
    BufsOk (s.portWrite (some w) (some pk)).1 ∧ SameObjects s (s.portWrite (some w) (some pk)).1 ∧ s.WriteExact w pk ∧
      (WaitsInv s → (∀ r ∈ s.readersOf w, s.HasRoom pk r → s.FewWaiters pk r) →
        WaitsInv (s.portWrite (some w) (some pk)).1) := by
  obtain ⟨hnd, hread⟩ := readersOf_spec hi.ports w
  unfold WriteExact
  rcases portWrite_cases hi w pk with he | ⟨hn, he⟩
  · rw [he]
    obtain ⟨h1, h2, h3, h4⟩ := foldl_writeReader _ hnd hi hread pk NO_ERROR
    exact ⟨h1, h2, ⟨fun r _ => h3 r, fun _ => h4⟩, fun hw hf => hw.foldl _ hnd hi hread _ hf⟩
  · rw [hn]
    rcases he with he | ⟨b, b', hb, hb', hw, he⟩
    · rw [he]
      exact ⟨hi, .refl s, ⟨fun r _ => (if_neg (by simp)).symm, fun h => absurd rfl h⟩, fun hw _ => hw⟩
    · rw [he]
      have hnr : s.readPorts w = none := hi.ports.write w hw
      have hc : ∀ r, (s.readPorts r).isSome →
          contentOf { s with buf := Function.update s.buf w (some b') } r = s.contentOf r := by
        intro r hr
        have e : r ≠ w := by
          rintro rfl
          rw [hnr] at hr
          cases hr
        rw [contentOf_update (s := s) rfl, Function.update_of_ne e]
      have ho : SameObjects s { s with buf := Function.update s.buf w (some b') } := ⟨rfl, rfl, rfl⟩
      refine ⟨hi.rebuf hb hb' s.wait s.ready, ho, ⟨fun r hr => ?_, fun h => absurd rfl h⟩, fun hw _ => ⟨?_, hw.unmixed⟩⟩
      · rw [hc r hr, if_neg (by simp)]
      · intro k hk
        have hp : packets { s with buf := Function.update s.buf w (some b') } k = s.packets k := by
          refine (packets_update hi.ports ho (contentOf_update rfl) k).1 fun hwk => ?_
          have := (mem_readable hi.ports hwk).1
          rw [hnr] at this
          cases this
        rw [hp]
        exact hw.served k hk

theorem DeliveryInv.write (h : DeliveryInv d) {port : Option Nat} {pk : Option (List PortPacket)}
    (hg : DeliveryGuard d (.write port pk)) (hs : deliveryStep d (.write port pk) = some d') : DeliveryInv d' := by
  cases hs
  cases port with
  | none => exact ⟨h.bufs, h.inOrder, h.waits⟩
  | some w =>
    cases pk with
    | none => exact ⟨h.bufs, h.inOrder, h.waits⟩
    | some pk =>
      obtain ⟨h1, h2, h3, h4⟩ := portWrite_spec h.bufs w pk
      refine ⟨h1, fun r hr => ?_, h4 h.waits hg⟩
      dsimp only at hr ⊢
      rw [h2.readPorts] at hr
      rw [h3.1 r hr]
      split
      · rw [← List.append_assoc, h.inOrder r hr, List.append_assoc]
      · exact h.inOrder r hr

/-- the log of a read port when a packet was taken from it -/
theorem Takes.inOrder {p : PortPacket} (ht : Takes s r p s') {first accepted received : Nat → List PortPacket}
    (h : ∀ q, (s.readPorts q).isSome → first q ++ accepted q = received q ++ s.contentOf q) (q : Nat)
    (hq : (s'.readPorts q).isSome) :
    first q ++ accepted q = Function.update received r (received r ++ [p]) q ++ s'.contentOf q := by
  obtain ⟨c, h1, h2⟩ := ht.content
  rw [ht.same.readPorts] at hq
  rw [h2, h q hq]
  by_cases e : q = r
  · subst e
    rw [Function.update_self, Function.update_self, h1, List.append_assoc]
    rfl
  · rw [Function.update_of_ne e, Function.update_of_ne e]

theorem DeliveryInv.read (h : DeliveryInv d) {t timeout : Nat} {port : Option Nat} {out : Bool}
    (hg : DeliveryGuard d (.read t timeout port out)) :
    DeliveryInv (finishRead d t (d.ports.portRead t timeout port out)) := by
  cases port with
  | none => exact ⟨h.bufs, h.inOrder, h.waits⟩
  | some k =>
    rcases portRead_cases h.bufs t timeout k out with ⟨e, he, -⟩ | ⟨r, hr, ctx, p, s', he, ht⟩ | ⟨hto, hz, he⟩
    · rw [he]
      exact ⟨h.bufs, h.inOrder, h.waits⟩
    · rw [he]
      refine ⟨ht.bufs, ht.inOrder h.inOrder, ?_⟩
      show WaitsInv s'
      have hwk : ∀ q, s'.woken q = d.ports.woken q := fun q => by
        unfold woken
        rw [ht.waits.2]
      have hpk := fun q => (ht.packets h.bufs.ports q).1
      refine h.waits.turn (h := k) h.bufs.ports ht.same (fun q _ => by rw [ht.waits.1]) (fun q _ => hwk q) hpk
        (fun hq => ?_) (fun hq => .inl ?_)
      · rw [ht.waits.1] at hq
        rw [hwk]
        exact (hpk k).trans (h.waits.served k hq)
      · unfold Waiting at hq ⊢
        rwa [ht.waits.1, hwk] at hq
    · rw [he]
      refine ⟨h.bufs.waits _ d.ports.ready, h.inOrder, ?_⟩
      obtain ⟨hg1, hg2⟩ := hg hto hz
      refine h.waits.turn (h := k) h.bufs.ports ⟨rfl, rfl, rfl⟩ (fun q hq => Function.update_of_ne hq _ _)
        (fun _ _ => rfl) (fun q => le_of_eq (packets_same ⟨rfl, rfl, rfl⟩ rfl q)) (fun _ => ?_)
        (fun _ => .inr ⟨hg1, fun r hr => ?_⟩)
      · exact (packets_same ⟨rfl, rfl, rfl⟩ rfl k).trans_le (hz ▸ Nat.zero_le _)
      · have ho := h.bufs.ports.groups.owner hr
        obtain ⟨l, hl⟩ := Option.isSome_iff_exists.mp ho
        refine hg2 r ?_
        rw [hl]
        exact (h.bufs.ports.groups.mem hl r).mpr hr

theorem woken_erase {x : PortReady} (hx : x ∈ s.ready) (hs : s'.ready = s.ready.erase x) (k : Nat) :
    s.woken k = s'.woken k + if x.port = k ∧ x.ret = NO_ERROR then 1 else 0 := by
  unfold woken
  rw [hs, (List.perm_cons_erase hx).countP_eq, List.countP_cons]
  simp

theorem DeliveryInv.resume (h : DeliveryInv d) {t : Nat} (hs : deliveryStep d (.resume t) = some d') :
    DeliveryInv d' := by
  dsimp only [deliveryStep] at hs
  cases hf : d.ports.ready.find? fun x => x.waiter.thread = t with
  | none =>
    rw [hf] at hs
    cases hs
  | some x =>
    rw [hf] at hs
    have hx := List.mem_of_find?_eq_some hf
    let s : Ports := { d.ports with ready := d.ports.ready.erase x }
    have hb : BufsOk s := h.bufs.waits _ _
    have ho : SameObjects d.ports s := ⟨rfl, rfl, rfl⟩
    have hwk := fun k => @woken_erase d.ports s _ hx rfl k
    have hpk := fun k => @packets_same d.ports s ho rfl k
    by_cases hret : x.ret = NO_ERROR
    · dsimp only at hs
      rw [if_pos hret] at hs
      cases hs
      -- the thread was one of those counted for its handle
      have hone : d.ports.woken x.port = s.woken x.port + 1 := by
        rw [hwk, if_pos ⟨rfl, hret⟩]
      have hoth : ∀ k, k ≠ x.port → s.woken k = d.ports.woken k := fun k hk => by
        rw [hwk k, if_neg fun hc => hk hc.1.symm, Nat.add_zero]
      have hwas : d.ports.Waiting x.port := .inr (by lia)
      rcases portRead_cases hb t x.waiter.timeout x.port true with ⟨e, he, hz⟩ | ⟨r, hr, ctx, p, s', he, ht⟩ |
        ⟨hto, hz, he⟩
      · rw [he]
        refine ⟨hb, h.inOrder, ?_⟩
        refine h.waits.turn (h := x.port) h.bufs.ports ho (fun _ _ => rfl) hoth (fun k => (hpk k).le) (fun _ => ?_)
          (fun _ => .inl hwas)
        show s.packets x.port ≤ _
        rw [hz rfl]
        exact Nat.zero_le _
      · rw [he]
        refine ⟨ht.bufs, ht.inOrder h.inOrder, ?_⟩
        show WaitsInv s'
        have ho' : SameObjects d.ports s' := ⟨ht.same.readPorts, ht.same.writePorts, ht.same.groups⟩
        have hwk' : ∀ k, s'.woken k = s.woken k := fun k => by
          unfold woken
          rw [ht.waits.2]
        refine h.waits.turn (h := x.port) h.bufs.ports ho' (fun k _ => by rw [ht.waits.1])
          (fun k hk => (hwk' k).trans (hoth k hk))
          (fun k => (ht.packets hb.ports k).1.trans (hpk k).le) (fun hq => ?_) (fun _ => .inl hwas)
        rw [ht.waits.1] at hq
        have h1 := h.waits.served x.port hq
        have h2 := (ht.packets hb.ports x.port).2 hr
        rw [hpk] at h2
        rw [hwk']
        lia
      · rw [he]
        refine ⟨hb.waits _ _, h.inOrder, ?_⟩
        refine h.waits.turn (h := x.port) h.bufs.ports ⟨rfl, rfl, rfl⟩ (fun k hk => Function.update_of_ne hk _ _) hoth
          (fun k => (packets_same ⟨rfl, rfl, rfl⟩ rfl k).le) (fun _ => ?_) (fun _ => .inl hwas)
        exact (packets_same (s := s) ⟨rfl, rfl, rfl⟩ rfl x.port).trans_le (hz ▸ Nat.zero_le _)
    · dsimp only at hs
      rw [if_neg hret] at hs
      cases hs
      have hsame : ∀ k, s.woken k = d.ports.woken k := fun k => by
        rw [hwk k, if_neg fun hc => hret hc.2, Nat.add_zero]
      refine ⟨hb, h.inOrder, ?_⟩
      refine ⟨fun k hk => ?_, fun r g hg hr hgw => ?_⟩
      · show s.packets k ≤ s.woken k
        rw [hsame, hpk]
        exact h.waits.served k hk
      · refine h.waits.unmixed r g hg ?_ ?_
        · change s.Waiting r at hr
          unfold Waiting at hr ⊢
          rwa [hsame] at hr
        · change s.Waiting g at hgw
          unfold Waiting at hgw ⊢
          rwa [hsame] at hgw

theorem DeliveryInv.timeout (h : DeliveryInv d) {t k : Nat} (hs : deliveryStep d (.timeout t k) = some d') :
    DeliveryInv d' := by
  dsimp only [deliveryStep] at hs
  cases hf : (d.ports.wait k).find? fun w => w.thread = t with
  | none =>
    rw [hf] at hs
    cases hs
  | some w =>
    rw [hf] at hs
    cases hs
    have hmem := List.mem_of_find?_eq_some hf
    have hwk : ∀ q, woken { d.ports with
        wait := Function.update d.ports.wait k ((d.ports.wait k).erase w)
        ready := ⟨w, k, ERR_TIMED_OUT⟩ :: d.ports.ready } q = d.ports.woken q := by
      intro q
      rw [woken_cons (s := d.ports) ⟨w, k, ERR_TIMED_OUT⟩ q rfl, if_neg, Nat.add_zero]
      exact fun hc => absurd hc.2 (by decide : ERR_TIMED_OUT ≠ NO_ERROR)
    refine ⟨h.bufs.waits _ _, h.inOrder, ?_⟩
    refine h.waits.turn (h := k) h.bufs.ports ⟨rfl, rfl, rfl⟩ (fun q hq => Function.update_of_ne hq _ _)
      (fun q _ => hwk q) (fun q => (packets_same ⟨rfl, rfl, rfl⟩ rfl q).le) (fun hq => ?_) (fun _ => .inl ?_)
    · rw [hwk]
      exact (packets_same (s := d.ports) ⟨rfl, rfl, rfl⟩ rfl k).trans_le
        (h.waits.served k (List.ne_nil_of_mem hmem))
    · exact .inl (List.ne_nil_of_mem hmem)

theorem DeliveryInv.step (h : DeliveryInv d) {op : DeliveryOp} (hg : DeliveryGuard d op)
    (hs : deliveryStep d op = some d') : DeliveryInv d' := by
  cases op with
  | write port pk => exact h.write hg hs
  | read t timeout port out =>
    dsimp only [deliveryStep] at hs
    split at hs
    · cases hs
    · cases hs
      exact h.read hg
  | resume t => exact h.resume hs
  | timeout t k => exact h.timeout hs

/-- **Port delivery.**  In runs under the guard every read port hands out what was written to it, all in order
and once, every write is all or nothing for each read port, and nobody is left waiting where there is a packet. -/
theorem port_delivery (hr : deliverySys.Run DeliveryGuard d) :
    Delivered d ∧ ∀ w pk, d.ports.WriteExact w pk := by
  have h := hr.invariant (I := DeliveryInv) (fun _ h0 => .init h0) fun _ _ _ h hg hs => h.step hg hs
  exact ⟨h.delivered, fun w pk => (portWrite_spec h.bufs w pk).2.2.1⟩

/-! ## ports to start from -/

/-- ports with nobody in `port_read` yet -/
def start (s : Ports) : Delivery := ⟨s, fun _ => false, s.contentOf, fun _ => [], fun _ => []⟩

/-- new buffers, and nobody waiting -/
structure Quiet (s : Ports) : Prop where
  bufs : ∀ h b, s.buf h = some b → b.Ok
  wait : ∀ h, s.wait h = []
  ready : s.ready = []

theorem Quiet.same (h : Quiet s) (hb : s'.buf = s.buf) (hw : s'.wait = s.wait) (hr : s'.ready = s.ready) : Quiet s' :=
  ⟨hb ▸ h.bufs, hw ▸ h.wait, hr ▸ h.ready⟩

theorem Quiet.setGport (h : Quiet s) (r : Nat) (g : Option Nat) : Quiet (s.setGport r g) := by
  unfold Ports.setGport
  split <;> exact h.same rfl rfl rfl

theorem Quiet.setWport (h : Quiet s) (r : Nat) (w : Option Nat) : Quiet (s.setWport r w) := by
  unfold Ports.setWport
  split <;> exact h.same rfl rfl rfl

theorem Quiet.linkGroup (h : Quiet s) (g r : Nat) : Quiet (s.linkGroup g r) := by
  unfold Ports.linkGroup
  split <;> exact h.same rfl rfl rfl

theorem Quiet.unlinkGroup (h : Quiet s) (g r : Nat) : Quiet (s.unlinkGroup g r) := by
  unfold Ports.unlinkGroup
  split
  · exact h.same rfl rfl rfl
  · split <;> exact h.same rfl rfl rfl

theorem update_nil {wait : Nat → List PortWaiter} (h : ∀ k, wait k = []) (q k : Nat) :
    Function.update wait q [] k = [] := by
  by_cases e : k = q
  · subst e
    exact Function.update_self ..
  · rw [Function.update_of_ne e]
    exact h k

theorem Quiet.wakeAll (h : Quiet s) (k : Nat) (ret : Int) : Quiet (s.wakeAll k ret) := by
  refine ⟨h.bufs, update_nil h.wait k, ?_⟩
  unfold Ports.wakeAll
  rw [h.wait k, h.ready]
  rfl

/-- another buffer -/
theorem bufs_update {bf : Nat → Option PortBuf} (h : ∀ k b, bf k = some b → b.Ok) {x : Option PortBuf}
    (hx : ∀ b, x = some b → b.Ok) (q : Nat) : ∀ k b, Function.update bf q x k = some b → b.Ok := by
  intro k b hb
  by_cases e : k = q
  · subst e
    rw [Function.update_self] at hb
    exact hx b hb
  · rw [Function.update_of_ne e] at hb
    exact h k b hb

theorem Quiet.unlinkWrite (h : Quiet s) (w r : Nat) : Quiet (s.unlinkWrite w r) := by
  unfold Ports.unlinkWrite
  split
  · exact h.same rfl rfl rfl
  · split
    · dsimp only
      split
      · exact ⟨bufs_update (bufs_update h.bufs (h.bufs r) w) (fun _ hb => by cases hb) r, h.wait, h.ready⟩
      · exact h.same rfl rfl rfl
    · exact h.same rfl rfl rfl

theorem Quiet.foldl {f : Ports → Nat → Ports} (hf : ∀ s r, Quiet s → Quiet (f s r)) (l : List Nat) (h : Quiet s) :
    Quiet (l.foldl f s) := by
  induction l generalizing s with
  | nil => exact h
  | cons r l ih => exact ih (hf s r h)

theorem Quiet.create (h : Quiet s) (mem : Option Nat) (bufMem : Bool) (name : Option (List UInt8)) (mode : Nat)
    (out : Bool) : Quiet (s.portCreate mem bufMem name mode out).1 := by
  unfold portCreate
  cases name with
  | none => exact h
  | some name =>
    dsimp only
    split
    · exact h
    · split
      · exact h
      · split
        · exact h
        · split
          · split <;> exact h
          · cases mem with
            | none => exact h
            | some w =>
              dsimp only
              split
              · exact h
              · refine ⟨bufs_update h.bufs (fun b hb => ?_) w, h.wait, h.ready⟩
                cases hb
                exact (PortBuf.makeBuf_ok _).1

theorem Quiet.addReader (h : Quiet s) (w r ctx : Nat) (wp : WritePort) {buf : PortBuf} (hb : buf.Ok) :
    Quiet (s.addReader w r ctx wp buf) := by
  refine ⟨bufs_update (bufs_update h.bufs (fun _ hx => by cases hx) w) (fun b hx => ?_) r, update_nil h.wait r, h.ready⟩
  cases hx
  exact hb

theorem Quiet.open (h : Quiet s) (mem : Option Nat) (bufMem : Bool) (name : Option (List UInt8)) (ctx : Nat)
    (out : Bool) : Quiet (s.portOpen mem bufMem name ctx out).1 := by
  unfold portOpen
  cases name with
  | none => exact h
  | some name =>
    dsimp only
    split
    · exact h
    · cases mem with
      | none => exact h
      | some r =>
        dsimp only
        split
        · exact h
        · split
          · exact h
          · rename_i w wp _
            split
            · rename_i buf hb
              exact h.addReader _ _ _ _ (h.bufs w buf hb)
            · split
              · exact h
              · exact h.addReader _ _ _ _ (PortBuf.makeBuf_ok false).1

theorem Quiet.groupLoop (ports done : List Nat) (h : Quiet s) (g : Nat) : Quiet (s.groupLoop g done ports).1 := by
  induction ports generalizing s done with
  | nil => exact h
  | cons r ports ih =>
    unfold Ports.groupLoop
    split
    · exact ih _ ((h.setGport r _).linkGroup g r)
    · exact h.foldl (fun s r hs => hs.setGport r none) _

theorem Quiet.group (h : Quiet s) (mem : Option Nat) (ports : List Nat) (null out : Bool) :
    Quiet (s.portGroup mem ports null out).1 := by
  unfold portGroup
  split
  · exact h
  · split
    · exact h
    · split
      · exact h
      · cases mem with
        | none => exact h
        | some g =>
          have h1 : Quiet { s with groups := Function.update s.groups g (some ⟨[]⟩)
                                   wait := Function.update s.wait g [] } :=
            ⟨h.bufs, update_nil h.wait g, h.ready⟩
          have h2 := h1.groupLoop ports [] g
          dsimp only
          split
          · exact h2
          · exact h2.same rfl rfl rfl

theorem Quiet.groupAdd (h : Quiet s) (group port : Option Nat) : Quiet (s.portGroupAdd group port).1 := by
  unfold portGroupAdd
  split
  · rename_i r g
    split
    · exact h
    · split
      · split
        · exact h
        · have h1 := (h.setGport r (some g)).linkGroup g r
          dsimp only
          split
          · exact h1.same rfl rfl rfl
          · dsimp only
            split
            · exact h1
            · unfold wakeOne
              rw [h1.wait g]
              exact h1
      · exact h
  · exact h

theorem Quiet.groupRemove (h : Quiet s) (group port : Option Nat) : Quiet (s.portGroupRemove group port).1 := by
  unfold portGroupRemove
  split
  · split
    · exact h
    · split
      · split
        · exact h.same rfl rfl rfl
        · exact h.unlinkGroup _ _
      · exact h
  · exact h

theorem Quiet.close (h : Quiet s) (port : Option Nat) : Quiet (s.portClose port).1 := by
  unfold portClose
  cases port with
  | none => exact h
  | some k =>
    dsimp only
    split
    · rename_i rp _
      unfold closeRead
      have h1 : Quiet (s.leaveWport k rp.wport) := by
        unfold leaveWport
        split
        · exact h
        · exact h.unlinkWrite _ _
      have h2 : Quiet ((s.leaveWport k rp.wport).leaveGport k rp.gport) := by
        unfold leaveGport
        split
        · exact h1
        · exact h1.unlinkGroup _ _
      have h3 := h2.wakeAll k ERR_OBJECT_DESTROYED
      exact ⟨bufs_update h3.bufs (fun _ hb => by cases hb) k, h3.wait, h3.ready⟩
    · unfold closeGroup
      exact ((h.wakeAll k ERR_OBJECT_DESTROYED).foldl (fun s r hs => hs.setGport r none) _).same rfl rfl rfl
    · split
      · exact h
      · exact h.same rfl rfl rfl
    · exact h

theorem Quiet.destroy (h : Quiet s) (port : Option Nat) : Quiet (s.portDestroy port).1 := by
  unfold portDestroy
  cases port with
  | none => exact h
  | some w =>
    dsimp only
    split
    · rename_i rpList _
      have hdrop : ∀ s r, Quiet s → Quiet (dropReader s r) := by
        intro s r hs
        unfold dropReader
        dsimp only
        split
        · exact (hs.wakeAll r _).setWport r none
        · exact ((hs.wakeAll r _).wakeAll _ _).setWport r none
      have h1 : ∀ t, Quiet t → Quiet (if (t.buf w).isSome then t else rpList.foldl dropReader t) := by
        intro t ht
        split
        · exact ht
        · exact ht.foldl hdrop rpList
      have h2 : Quiet (if w ∈ s.writePortList then { s with writePortList := s.writePortList.erase w }
          else { s with fault := true }) := by
        split <;> exact h.same rfl rfl rfl
      have h3 := h1 _ h2
      exact ⟨bufs_update h3.bufs (fun _ hb => by cases hb) w, h3.wait, h3.ready⟩
    · exact h

theorem Quiet.run (hr : portSys.Reach s) : Quiet s := by
  refine hr.invariant (I := Quiet) (fun t h0 => ?_) fun t c t' h _ hs => ?_
  · cases h0
    exact ⟨fun _ _ hb => (by cases hb), fun _ => rfl, rfl⟩
  · change portStep t c = some t' at hs
    unfold portStep at hs
    split at hs
    · cases hs
      cases c with
      | create mem bufMem name mode out => exact h.create mem bufMem name mode out
      | «open» mem bufMem name ctx out => exact h.open mem bufMem name ctx out
      | group mem ports null out => exact h.group mem ports null out
      | groupAdd group port => exact h.groupAdd group port
      | groupRemove group port => exact h.groupRemove group port
      | close port => exact h.close port
      | destroy port => exact h.destroy port
    · cases hs

/-- ports made by any calls that remove no member -/
theorem start_init (hr : portSys.Run RemovesNoMember s) : DeliveryInit (start s) := by
  have hq := Quiet.run hr.reach
  exact ⟨run_inv hr, hq.bufs, ⟨hq.wait, hq.ready⟩, fun _ => rfl, fun _ => rfl, fun _ => rfl⟩

end

/-- a thread waits on a port; one packet for it and then two for nobody -/
theorem port_delivery_woken : ∃ d,
    ((Machine.execIf RemovesNoMember portStep portInit
      [.create (some 1) true (some [97]) 0 true, .open (some 2) true (some [97]) 7 true]).bind fun s =>
        Machine.execIf DeliveryGuard deliveryStep (start s)
          [.read 1 1000 (some 2) true, .write (some 1) (some [5]), .resume 1, .write (some 1) (some [6, 7])]) = some d ∧
      d.received 2 = [5] ∧ d.ports.contentOf 2 = [6, 7] ∧ Delivered d := by
  have h0 : portSys.Run RemovesNoMember portInit := .init rfl
  obtain ⟨d, hd, hp⟩ := (Option.any_eq_true _ _).mp (show ((Machine.execIf RemovesNoMember portStep portInit
      [.create (some 1) true (some [97]) 0 true, .open (some 2) true (some [97]) 7 true]).bind fun s =>
        Machine.execIf DeliveryGuard deliveryStep (start s)
          [.read 1 1000 (some 2) true, .write (some 1) (some [5]), .resume 1, .write (some 1) (some [6, 7])]).any
        (fun d => d.received 2 = [5] ∧ d.ports.contentOf 2 = [6, 7]) by decide)
  obtain ⟨s, hs, hd'⟩ := Option.bind_eq_some_iff.mp hd
  have h1 : deliverySys.Run DeliveryGuard (start s) := .init (start_init (h0.execIf _ hs))
  have hp' := of_decide_eq_true hp
  exact ⟨d, hd, hp'.1, hp'.2, (port_delivery (h1.execIf _ hd')).1⟩

/-- **A thread left waiting.**  Two threads wait on a port; two packets written at once wake one of them. -/
theorem port_delivery_fails : ¬ ∀ d, deliverySys.Reach d → d.ports.NoneStranded := by
  intro h
  have h0 : portSys.Run RemovesNoMember portInit := .init rfl
  obtain ⟨d, hd, hp⟩ := (Option.any_eq_true _ _).mp (show ((Machine.execIf RemovesNoMember portStep portInit
      [.create (some 1) true (some [97]) 0 true, .open (some 2) true (some [97]) 7 true]).bind fun s =>
        Machine.exec deliveryStep (start s)
          [.read 1 1000 (some 2) true, .read 2 1000 (some 2) true, .write (some 1) (some [5, 6]), .resume 1]).any
        (fun d => d.ports.ready = [] ∧ d.ports.wait 2 ≠ [] ∧ d.ports.packets 2 ≠ 0) by decide)
  obtain ⟨s, hs, hd'⟩ := Option.bind_eq_some_iff.mp hd
  have h1 : deliverySys.Reach (start s) := .init (start_init (h0.execIf _ hs))
  have hp' := of_decide_eq_true hp
  exact hp'.2.2 (h d (h1.exec _ hd') hp'.1 2 hp'.2.1)

end Ports
end LkHv
