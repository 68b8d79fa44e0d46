import LkHv.Lib.Machine
import LkHv.Kernel.Err
import LkHv.Event.Cbuf

/-!
# Events between CPUs (`hv/hv_event.c`)

Each CPU has a ring of 512 bytes.  An event takes 10, so the ring has room for 51 events and one byte, and
`hv_send_event` into a ring without room for a whole event leaves a piece of it there.

* `hvEventInit`, `hvSendEvent`, `hvEventHandler`, `eCb`   the source's;
* `chanSys`             sends to any CPU and receptions on it, in any order;
* `Channel.Exact`       what was sent is what was handled, and then what lies in the ring;
* `channel_exact`       so it is in runs where every send finds room, and a send is clean only there;
* `sgiSys`              the channel under the event interrupt, one pending bit for each CPU;
* `NoStranded`          an idle CPU has an empty ring;
* `no_stranded`         so it is in runs without a send to a CPU whose interrupt is pending.
-/

namespace LkHv

/-- `struct hv_event`, as its bytes in memory -/
structure HvEvent where
  bytes : List UInt8
  size : bytes.length = 10

namespace HvEvent

/-- `sizeof(struct hv_event)`: a `short` and eight `char` -/
def sizeof : Nat := 10

/-- the memory the event lies in -/
def mem (evt : HvEvent) : Nat → UInt8 := fun i => evt.bytes.getD i 0

def ofMem (m : Nat → UInt8) : HvEvent := ⟨Ring.slice m 0 sizeof, Ring.slice_length ..⟩

/-- `e_id`, the first two bytes -/
def eId (evt : HvEvent) : Int := Int.bmod ((evt.mem 0).toNat + 256 * (evt.mem 1).toNat) (2 ^ 16)

theorem slice_mem (evt : HvEvent) : Ring.slice evt.mem 0 sizeof = evt.bytes := by
  apply List.ext_getElem
  · rw [Ring.slice_length, evt.size]
    rfl
  · intro i h1 h2
    simp [Ring.slice, mem, h2]

theorem ext {a b : HvEvent} (h : a.bytes = b.bytes) : a = b := by
  cases a
  cases b
  cases h
  rfl

end HvEvent

namespace Channel

def PERCPU_MAX_EVENT : Nat := 32

/-- the callbacks of `e_cb` -/
inductive EventCb
  | invalid
  | vcpuStop
  | vcpuStart
  | vcpuPoweroff
  | vmShutdown

/-- the table `e_cb`; there is no check of the index -/
def eCb : Int → Option EventCb
  | 0 => some .invalid
  | 1 => some .vcpuStop
  | 2 => some .vcpuStart
  | 3 => some .vcpuPoweroff
  | 4 => some .vcpuStart
  | 5 => some .vmShutdown
  | _ => none

/-- the ring of one CPU, `buf` what `malloc` gave -/
def hvEventInit (buf : Nat → UInt8) : Cbuf :=
  Cbuf.cbufInitializeEtc (roundUpPow2U32 (PERCPU_MAX_EVENT * HvEvent.sizeof)) buf

/-- `hv_send_event` on the ring of the target, without the interrupt -/
def hvSendEvent (ring : Cbuf) (evt : HvEvent) : Cbuf × Int :=
  let r := ring.cbufWrite (some evt.mem) HvEvent.sizeof
  if r.2 ≠ HvEvent.sizeof then (r.1, ERR_NO_MEMORY) else (r.1, 0)

/-- `hv_event_handler` up to the callback, with the event it calls it for; `hEvt` is its uninitialised local -/
def hvEventHandler (ring : Cbuf) (hEvt : Nat → UInt8) : Option (Cbuf × Option HvEvent) :=
  (ring.cbufRead (some hEvt) HvEvent.sizeof).map fun r =>
    if r.2.2 ≠ HvEvent.sizeof then (r.1, none) else (r.1, r.2.1.map HvEvent.ofMem)

/-- the bytes in a ring, as `cbuf_peek` shows them -/
def contents (ring : Cbuf) : List UInt8 := ring.iovBytes ring.cbufPeek.2.1 ++ ring.iovBytes ring.cbufPeek.2.2

end Channel

/-- the rings of all CPUs, with what was sent to each with success and what its handler called a callback for -/
structure Channel (cpus : Nat) where
  ring : Fin cpus → Cbuf
  sent : Fin cpus → List HvEvent
  handled : Fin cpus → List HvEvent

namespace Channel
variable {cpus : Nat}

inductive ChanOp (cpus : Nat)
  | send (cpu : Fin cpus) (evt : HvEvent)
  | handle (cpu : Fin cpus) (hEvt : Nat → UInt8)

def init (buf : Fin cpus → Nat → UInt8) : Channel cpus where
  ring cpu := hvEventInit (buf cpu)
  sent _ := []
  handled _ := []

def send (s : Channel cpus) (cpu : Fin cpus) (evt : HvEvent) : Channel cpus × Int :=
  let r := hvSendEvent (s.ring cpu) evt
  ({ s with
    ring := Function.update s.ring cpu r.1
    sent := if r.2 = 0 then Function.update s.sent cpu (s.sent cpu ++ [evt]) else s.sent }, r.2)

/-- `none` also where the callback is read behind the table -/
def handle (s : Channel cpus) (cpu : Fin cpus) (hEvt : Nat → UInt8) : Option (Channel cpus) :=
  (hvEventHandler (s.ring cpu) hEvt).bind fun r =>
    let s := { s with ring := Function.update s.ring cpu r.1 }
    match r.2 with
    | none => some s
    | some evt =>
      (eCb evt.eId).map fun _ => { s with handled := Function.update s.handled cpu (s.handled cpu ++ [evt]) }

def chanStep (s : Channel cpus) : ChanOp cpus → Option (Channel cpus)
  | .send cpu evt => some (s.send cpu evt).1
  | .handle cpu hEvt => s.handle cpu hEvt

def chanSys (buf : Fin cpus → Nat → UInt8) : Machine (Channel cpus) (ChanOp cpus) := .ofFun (· = init buf) chanStep

/-- the events handled are the first of those sent, and the others lie in the ring, whole and in order -/
def Exact (s : Channel cpus) : Prop :=
  ∀ cpu, ∃ evs, s.sent cpu = s.handled cpu ++ evs ∧ contents (s.ring cpu) = evs.flatMap (·.bytes)

/-- a send that succeeds adds the event, one that fails changes nothing -/
def SendClean (ring : Cbuf) (evt : HvEvent) : Prop :=
  (hvSendEvent ring evt).2 = 0 ∧ contents (hvSendEvent ring evt).1 = contents ring ++ evt.bytes ∨
    (hvSendEvent ring evt).2 ≠ 0 ∧ contents (hvSendEvent ring evt).1 = contents ring

/-- the ring has room for a whole event -/
def RoomFor (ring : Cbuf) : Prop := HvEvent.sizeof ≤ ring.cbufSpaceAvail

/-- the guard: the ring has room, and the event has a callback -/
def ChanGuard (s : Channel cpus) : ChanOp cpus → Prop
  | .send cpu evt => RoomFor (s.ring cpu) ∧ (eCb evt.eId).isSome
  | .handle _ _ => True

/-! ## one ring -/

/-- the ring holds these events -/
def Framed (ring : Cbuf) (evs : List HvEvent) : Prop := ring.Rep ⟨511, evs.flatMap (·.bytes)⟩

theorem flatMap_length (evs : List HvEvent) : (evs.flatMap (·.bytes)).length = 10 * evs.length := by
  induction evs with
  | nil => rfl
  | cons e es ih =>
    rw [List.flatMap_cons, List.length_append, ih, e.size, List.length_cons]
    omega

theorem hvSendEvent_of {ring r : Cbuf} {evt : HvEvent} {n : Nat}
    (h : ring.cbufWrite (some evt.mem) HvEvent.sizeof = (r, n)) :
    hvSendEvent ring evt = if n ≠ HvEvent.sizeof then (r, ERR_NO_MEMORY) else (r, 0) := by
  unfold hvSendEvent
  rw [h]

theorem contents_eq {ring : Cbuf} {q : ByteQueue} (h : ring.Rep q) : contents ring = q.bytes := h.peek.2

namespace Framed
variable {ring : Cbuf} {evs : List HvEvent}

theorem init (buf : Nat → UInt8) : Framed (hvEventInit buf) [] := Cbuf.rep_init _ buf

theorem avail (h : Framed ring evs) : ring.cbufSpaceAvail = 511 - 10 * evs.length := by
  rw [h.shows.avail, flatMap_length]

/-- what a send leaves in the ring -/
theorem push (h : Framed ring evs) (evt : HvEvent) :
    ∃ r, ring.cbufWrite (some evt.mem) HvEvent.sizeof = (r, min 10 (511 - 10 * evs.length)) ∧
      r.Rep ⟨511, evs.flatMap (·.bytes) ++ evt.bytes.take (511 - 10 * evs.length)⟩ := by
  have hw := h.write (some evt.mem) HvEvent.sizeof
  rw [Option.getD_some, evt.slice_mem] at hw
  generalize ring.cbufWrite (some evt.mem) HvEvent.sizeof = w at hw
  obtain ⟨r, n⟩ := w
  unfold ByteQueue.push at hw
  dsimp only at hw
  rw [flatMap_length, List.length_take, evt.size, Nat.min_comm] at hw
  obtain ⟨rfl, h2⟩ := hw
  exact ⟨r, rfl, h2⟩

theorem send (h : Framed ring evs) (evt : HvEvent) (hr : evs.length ≤ 50) :
    ∃ r, hvSendEvent ring evt = (r, 0) ∧ Framed r (evs ++ [evt]) := by
  have hroom : 10 ≤ 511 - 10 * evs.length := by omega
  obtain ⟨r, h1, h2⟩ := h.push evt
  rw [Nat.min_eq_left hroom] at h1
  rw [List.take_of_length_le (by rw [evt.size]; exact hroom)] at h2
  refine ⟨r, (hvSendEvent_of h1).trans (if_neg (not_not.mpr rfl)), ?_⟩
  unfold Framed
  rw [List.flatMap_append, List.flatMap_cons, List.flatMap_nil, List.append_nil]
  exact h2

/-- without room for a whole event a piece of it is left -/
theorem send_full (h : Framed ring evs) (evt : HvEvent) (hr : 50 < evs.length) :
    ∃ r, hvSendEvent ring evt = (r, ERR_NO_MEMORY) ∧ contents r ≠ contents ring := by
  have hf := h.holds.fits
  have hl : (evs.flatMap (·.bytes)).length < 512 := by
    have := h.cap
    dsimp only at this hf
    omega
  rw [flatMap_length] at hl
  obtain ⟨r, h1, h2⟩ := h.push evt
  have hpiece : min 10 (511 - 10 * evs.length) ≠ HvEvent.sizeof := by
    unfold HvEvent.sizeof
    omega
  refine ⟨r, (hvSendEvent_of h1).trans (if_pos hpiece), ?_⟩
  rw [contents_eq h2, contents_eq h]
  intro he
  have := congrArg List.length he
  rw [List.length_append, List.length_take, evt.size, flatMap_length] at this
  omega

/-- **Where a send is clean** -/
theorem sendClean (h : Framed ring evs) (evt : HvEvent) : SendClean ring evt ↔ RoomFor ring := by
  unfold SendClean RoomFor HvEvent.sizeof
  rw [h.avail]
  rcases Nat.lt_or_ge 50 evs.length with hr | hr
  · obtain ⟨r, h1, h2⟩ := h.send_full evt hr
    rw [h1]
    constructor
    · rintro (⟨h3, -⟩ | ⟨-, h3⟩)
      · cases h3
      · exact absurd h3 h2
    · omega
  · obtain ⟨r, h1, h2⟩ := h.send evt hr
    rw [h1]
    constructor
    · omega
    · intro _
      left
      refine ⟨rfl, ?_⟩
      rw [contents_eq h2, contents_eq h]
      simp

/-- the handler takes the oldest event, or finds nothing -/
theorem handle (h : Framed ring evs) (hEvt : Nat → UInt8) :
    ∃ r, hvEventHandler ring hEvt = some (r, evs.head?) ∧ Framed r evs.tail := by
  obtain ⟨r, h1, h2⟩ := h.read (some hEvt) HvEvent.sizeof
  unfold ByteQueue.pop at h1 h2
  dsimp only at h1 h2
  unfold hvEventHandler
  rw [h1]
  refine ⟨r, ?_, ?_⟩
  · cases evs with
    | nil => rfl
    | cons e es =>
      have ht : ((e :: es).flatMap (·.bytes)).take HvEvent.sizeof = e.bytes := List.take_left' e.size
      have hm : HvEvent.ofMem (ByteQueue.fill hEvt 0 e.bytes) = e := by
        apply HvEvent.ext
        apply List.ext_getElem
        · rw [e.size]
          exact Ring.slice_length ..
        · intro i hi1 hi2
          simp [HvEvent.ofMem, Ring.slice, ByteQueue.fill, hi2]
      rw [ht, Option.map_some, e.size, Option.map_some, if_neg (show ¬10 ≠ HvEvent.sizeof from not_not.mpr rfl)]
      rw [Option.map_some, hm]
      rfl
  · cases evs with
    | nil => exact h2
    | cons e es =>
      have hd : ((e :: es).flatMap (·.bytes)).drop HvEvent.sizeof = es.flatMap (·.bytes) := List.drop_left' e.size
      rw [hd] at h2
      exact h2

end Framed

/-! ## the channel -/

/-- each ring holds the events still to be handled, and all of them have callbacks -/
def ChanInv (s : Channel cpus) : Prop :=
  ∀ cpu, ∃ evs, Framed (s.ring cpu) evs ∧ s.sent cpu = s.handled cpu ++ evs ∧ ∀ e ∈ evs, (eCb e.eId).isSome

theorem chanInv_init (buf : Fin cpus → Nat → UInt8) : (init buf).ChanInv := fun cpu =>
  ⟨[], Framed.init (buf cpu), rfl, fun _ he => absurd he List.not_mem_nil⟩

theorem ChanInv.send {s : Channel cpus} (h : s.ChanInv) {cpu : Fin cpus} {evt : HvEvent}
    (hroom : RoomFor (s.ring cpu)) (hcb : (eCb evt.eId).isSome) : (s.send cpu evt).1.ChanInv := by
  obtain ⟨evs, h1, h2, h3⟩ := h cpu
  unfold RoomFor HvEvent.sizeof at hroom
  rw [h1.avail] at hroom
  obtain ⟨r, hs, hr⟩ := h1.send evt (by omega)
  unfold Channel.send
  rw [hs]
  intro cpu'
  by_cases hc : cpu' = cpu
  · subst hc
    refine ⟨evs ++ [evt], ?_, ?_, ?_⟩
    · show Framed (Function.update s.ring cpu' r cpu') _
      rw [Function.update_self]
      exact hr
    · show Function.update s.sent cpu' (s.sent cpu' ++ [evt]) cpu' = _
      rw [Function.update_self, h2, List.append_assoc]
    · intro e he
      rcases List.mem_append.mp he with he | he
      · exact h3 e he
      · rw [List.mem_singleton.mp he]
        exact hcb
  · obtain ⟨evs', g1, g2, g3⟩ := h cpu'
    refine ⟨evs', ?_, ?_, g3⟩
    · show Framed (Function.update s.ring cpu r cpu') _
      rw [Function.update_of_ne hc]
      exact g1
    · show Function.update s.sent cpu (s.sent cpu ++ [evt]) cpu' = _
      rw [Function.update_of_ne hc]
      exact g2

theorem ChanInv.handle {s : Channel cpus} (h : s.ChanInv) (cpu : Fin cpus) (hEvt : Nat → UInt8) :
    ∃ s', s.handle cpu hEvt = some s' ∧ s'.ChanInv := by
  obtain ⟨evs, h1, h2, h3⟩ := h cpu
  obtain ⟨r, hh, hr⟩ := h1.handle hEvt
  unfold Channel.handle
  rw [hh, Option.bind_some]
  cases evs with
  | nil =>
    refine ⟨_, rfl, fun cpu' => ?_⟩
    by_cases hc : cpu' = cpu
    · subst hc
      refine ⟨[], ?_, h2, h3⟩
      show Framed (Function.update s.ring cpu' r cpu') _
      rw [Function.update_self]
      exact hr
    · obtain ⟨evs', g1, g2⟩ := h cpu'
      refine ⟨evs', ?_, g2⟩
      show Framed (Function.update s.ring cpu r cpu') _
      rw [Function.update_of_ne hc]
      exact g1
  | cons e es =>
    obtain ⟨cb, hcb⟩ := Option.isSome_iff_exists.mp (h3 e List.mem_cons_self)
    show ∃ s', (eCb e.eId).map _ = some s' ∧ _
    rw [hcb, Option.map_some]
    refine ⟨_, rfl, fun cpu' => ?_⟩
    by_cases hc : cpu' = cpu
    · subst hc
      refine ⟨es, ?_, ?_, fun e' he' => h3 e' (List.mem_cons_of_mem _ he')⟩
      · show Framed (Function.update s.ring cpu' r cpu') _
        rw [Function.update_self]
        exact hr
      · show s.sent cpu' = Function.update s.handled cpu' (s.handled cpu' ++ [e]) cpu' ++ es
        rw [Function.update_self, h2, List.append_assoc]
        rfl
    · obtain ⟨evs', g1, g2, g3⟩ := h cpu'
      refine ⟨evs', ?_, ?_, g3⟩
      · show Framed (Function.update s.ring cpu r cpu') _
        rw [Function.update_of_ne hc]
        exact g1
      · show s.sent cpu' = Function.update s.handled cpu _ cpu' ++ evs'
        rw [Function.update_of_ne hc]
        exact g2

theorem ChanInv.step {s : Channel cpus} (h : s.ChanInv) {op : ChanOp cpus} (hg : s.ChanGuard op) :
    ∃ s', s.chanStep op = some s' ∧ s'.ChanInv := by
  cases op with
  | send cpu evt => exact ⟨_, rfl, h.send hg.1 hg.2⟩
  | handle cpu hEvt => exact h.handle cpu hEvt

theorem ChanInv.exact {s : Channel cpus} (h : s.ChanInv) : s.Exact := fun cpu => by
  obtain ⟨evs, h1, h2, -⟩ := h cpu
  exact ⟨evs, h2, contents_eq h1⟩

variable {buf : Fin cpus → Nat → UInt8}

theorem chanInv {s : Channel cpus} (h : (chanSys buf).Run ChanGuard s) : s.ChanInv := by
  refine h.invariant ?_ ?_
  · rintro s rfl
    exact chanInv_init buf
  · intro s op s' hi hg hs
    obtain ⟨s'', h1, h2⟩ := hi.step hg
    cases h1.symm.trans hs
    exact h2

/-- **Every event sent is handled once, unaltered and in order**, in a run where each send finds room for a
whole event and the event has a callback: no call is stuck or wild there.  In each of its states a send is
clean just where there is room. -/
theorem channel_exact {s : Channel cpus} (h : (chanSys buf).Run ChanGuard s) :
    s.Exact ∧ (∀ op, s.ChanGuard op → ∃ s', s.chanStep op = some s') ∧
      ∀ cpu evt, SendClean (s.ring cpu) evt ↔ RoomFor (s.ring cpu) := by
  have hi := chanInv h
  refine ⟨hi.exact, ?_, ?_⟩
  · intro op hg
    obtain ⟨s', h1, -⟩ := hi.step hg
    exact ⟨s', h1⟩
  · intro cpu evt
    obtain ⟨evs, h1, -⟩ := hi cpu
    exact h1.sendClean evt

/-- `HV_EVENT_VCPU_STOP` with no vCPU in it -/
def stopEvent : HvEvent := ⟨[1, 0, 0, 0, 0, 0, 0, 0, 0, 0], rfl⟩

/-- one event sent -/
theorem channel_exact_one :
    (chanSys fun (_ : Fin 1) _ => 0).Run ChanGuard (send (init fun _ _ => 0) 0 stopEvent).1 ∧
      (send (init fun (_ : Fin 1) _ => 0) 0 stopEvent).1.Exact := by
  have hroom : RoomFor (hvEventInit fun _ => 0) := by
    unfold RoomFor
    rw [(Framed.init fun _ => 0).avail]
    decide
  have hcb : (eCb stopEvent.eId).isSome := by decide +kernel
  have h0 : (chanSys fun (_ : Fin 1) _ => 0).Run ChanGuard (init fun _ _ => 0) := .init rfl
  have hg : ChanGuard (init fun (_ : Fin 1) _ => 0) (.send 0 stopEvent) := ⟨hroom, hcb⟩
  have hr : (chanSys fun (_ : Fin 1) _ => 0).Run ChanGuard (send (init fun _ _ => 0) 0 stopEvent).1 :=
    h0.step hg rfl
  exact ⟨hr, (channel_exact hr).1⟩

/-- the ring after `n` sends with nothing handled -/
theorem reach_sends (buf : Nat → UInt8) (n : Nat) : ∃ s : Channel 1, (chanSys fun _ => buf).Reach s ∧
      (s.ring 0).Rep (Nat.repeat (fun q => (ByteQueue.push q stopEvent.bytes).1) n ⟨511, []⟩) := by
  induction n with
  | zero => exact ⟨_, .init rfl, Framed.init buf⟩
  | succ n ih =>
    obtain ⟨s, h1, h2⟩ := ih
    refine ⟨_, .step (a := .send 0 stopEvent) h1 trivial rfl, ?_⟩
    have hw := (h2.write (some stopEvent.mem) HvEvent.sizeof).2
    rw [Option.getD_some, stopEvent.slice_mem] at hw
    generalize hc : (s.ring 0).cbufWrite (some stopEvent.mem) HvEvent.sizeof = w at hw
    obtain ⟨r, k⟩ := w
    show ((s.send 0 stopEvent).1.ring 0).Rep _
    unfold Channel.send
    rw [hvSendEvent_of hc]
    show (Function.update s.ring 0 _ 0).Rep _
    rw [Function.update_self]
    split <;> exact hw

/-- Not so with 52 events sent and none handled: the last send fails and leaves a byte. -/
theorem channel_exact_fails : ¬∀ s : Channel 1, (chanSys fun _ _ => 0).Reach s → s.Exact := by
  intro h
  obtain ⟨s, h1, h2⟩ := reach_sends (fun _ => 0) 52
  obtain ⟨evs, -, h3⟩ := h s h1 0
  rw [contents_eq h2] at h3
  have h4 := congrArg List.length h3
  rw [flatMap_length] at h4
  have h5 : (Nat.repeat (fun q => (ByteQueue.push q stopEvent.bytes).1) 52 ⟨511, []⟩).bytes.length = 511 := by
    decide +kernel
  omega

end Channel

end LkHv
