import LkHv.Dev.Vring
import LkHv.Lib.Machine

/-!
# A driver, a device and the interrupt on a virtio ring

A driver allocates chains of descriptors, splices descriptors into them, fills them in and submits them; the
device takes what was submitted and completes it in any order; the interrupt handler gives the chains of the
used elements back.  One ring of a device: its rings share the interrupt status and nothing else.

* `VirtioSys`, `virtioStep`, `virtioSys`   the state, the steps and the machine;
* `VirtioSys.Conserved`    the free list and the chains in flight partition the descriptors, and every used
                           element reaches the callback once;
* `conserved_run`          so it is in every run in which no whole ring is completed between two interrupts.
-/

namespace LkHv
open Vring

/-- a ring with its driver, its device and what happened so far -/
structure VirtioSys where
  ring : Vring
  /-- the chains the driver has allocated and not submitted -/
  held : List Nat
  /-- the device's index into the available ring -/
  lastAvail : Nat
  /-- the chains the device has taken from the available ring and not completed -/
  taken : List Nat
  /-- bit 0 of `interrupt_status` -/
  irqStatus : Bool
  /-- the used elements the device has published -/
  published : List VringUsedElem
  /-- the used elements the driver callback was called with -/
  called : List VringUsedElem

inductive VirtioOp where
  | alloc (count : Nat)
  /-- a descriptor allocated and put behind `desc` in the chain of `head` -/
  | splice (head desc : Nat) (write : Bool)
  /-- the flags of a descriptor written; it goes on or ends as before -/
  | fill (head desc flags : Nat)
  | submit (head : Nat)
  /-- the device takes the next chain from the available ring -/
  | take
  | complete (head len : Nat)
  /-- the device raises the interrupt for another of its rings -/
  | otherRing
  | irq

/-- a step; `none` if it cannot be taken -/
@[local grind =] def virtioStep (s : VirtioSys) : VirtioOp → Option VirtioSys
  | .alloc count =>
    match virtioAllocDescChain s.ring count with
    | (none, r) => some { s with ring := r }
    | (some head, r) => some { s with ring := r, held := head :: s.held }
  | .splice head desc write =>
    if head ∈ s.held ∧ desc ∈ s.ring.chainFrom s.ring.num head ∧ (s.ring.nextDesc desc).isSome then
      (spliceDesc s.ring desc write).map fun r => { s with ring := r }
    else none
  | .fill head desc flags =>
    if head ∈ s.held ∧ desc ∈ s.ring.chainFrom s.ring.num head ∧
        flags &&& VRING_DESC_F_NEXT = (s.ring.desc desc).flags &&& VRING_DESC_F_NEXT then
      some { s with ring :=
        { s.ring with desc := Function.update s.ring.desc desc { s.ring.desc desc with flags := flags } } }
    else none
  | .submit head =>
    if head ∈ s.held then some { s with ring := virtioSubmitChain s.ring head, held := s.held.erase head }
    else none
  | .take =>
    if s.lastAvail = s.ring.availIdx then none
    else some { s with
      lastAvail := (s.lastAvail + 1) % 2 ^ 16
      taken := s.ring.availRing (s.lastAvail % s.ring.num) :: s.taken }
  | .complete head len =>
    if head ∈ s.taken then
      some { s with
        ring := { s.ring with
          usedRing := Function.update s.ring.usedRing (s.ring.usedIdx % s.ring.num) ⟨head, len⟩
          usedIdx := (s.ring.usedIdx + 1) % 2 ^ 16 }
        taken := s.taken.erase head
        irqStatus := true
        published := s.published ++ [⟨head, len⟩] }
    else none
  | .otherRing => some { s with irqStatus := true }
  | .irq =>
    if s.irqStatus then
      (virtioMmioIrqRing s.ring).map fun (r, log) =>
        { s with ring := r, irqStatus := false, called := s.called ++ log }
    else some s

/-- a ring just set up, in memory whose two indices are zero -/
def VirtioSys.Fresh (s : VirtioSys) : Prop :=
  ∃ (len : Nat) (p : VringMem) (r : Vring), len < 2 ^ 16 ∧ p.availIdx = 0 ∧ p.usedIdx = 0 ∧
    virtioAllocRing len (some p) = .ok r ∧ s = ⟨r, [], 0, [], false, [], []⟩

def virtioSys : Machine VirtioSys VirtioOp := .ofFun VirtioSys.Fresh virtioStep

namespace VirtioSys

/-- the chains submitted that the device has not taken -/
def unread (s : VirtioSys) : List Nat :=
  Ring.window s.ring.availRing s.ring.num (s.lastAvail % s.ring.num)
    ((s.ring.availIdx + (2 ^ 16 - s.lastAvail)) % 2 ^ 16)

/-- the used elements published that the callback was not called with -/
def pending (s : VirtioSys) : List VringUsedElem := s.published.drop s.called.length

/-- the first descriptors of the chains in flight: held, submitted, taken, completed -/
def inFlight (s : VirtioSys) : List Nat := s.held ++ s.unread ++ s.taken ++ s.pending.map (·.id)

/-- **Conservation.** -/
structure Conserved (s : VirtioSys) : Prop where
  /-- the free list and the chains in flight partition the descriptors, and the count is right -/
  parts : ∃ free chain, Layout s.ring s.inFlight free chain
  /-- the callback was called with the elements published, in order and each once, up to some of them -/
  once : s.called ++ s.pending = s.published
  /-- an interrupt would return and call it with the others -/
  next : (virtioMmioIrqRing s.ring).map (·.2) = some s.pending
  /-- where no interrupt is due there are no others -/
  quiet : s.irqStatus = false → s.called = s.published

/-- the used elements published between two interrupts stay fewer than the ring holds -/
def Unfilled (s : VirtioSys) : VirtioOp → Prop
  | .complete _ _ => s.pending.length + 1 < s.ring.num
  | _ => True

instance (s : VirtioSys) (a : VirtioOp) : Decidable (Unfilled s a) := by
  cases a <;> unfold Unfilled <;> infer_instance

/-! ## the invariant -/

structure Inv (s : VirtioSys) : Prop where
  parts : ∃ free chain, Layout s.ring s.inFlight free chain
  size : ∃ k ≤ 15, s.ring.num = 2 ^ k
  mask : ∀ x, x &&& s.ring.numMask = x % s.ring.num
  avail_lt : s.lastAvail < 2 ^ 16 ∧ s.ring.availIdx < 2 ^ 16
  once : s.called ++ s.pending = s.published
  used : Ring.window s.ring.usedRing s.ring.num s.ring.lastUsed s.pending.length = s.pending
  lastUsed : s.ring.lastUsed = s.called.length % s.ring.num
  usedIdx : s.ring.usedIdx = s.published.length % 2 ^ 16
  room : s.pending.length < s.ring.num
  quiet : s.irqStatus = false → s.pending = []

variable {s : VirtioSys}

theorem Inv.num_le (I : Inv s) : s.ring.num ≤ 2 ^ 15 := by
  obtain ⟨k, hk, h⟩ := I.size
  rw [h]
  exact Nat.pow_le_pow_right (by decide) hk

theorem Inv.num_pos (I : Inv s) : 0 < s.ring.num := Nat.lt_of_le_of_lt (Nat.zero_le _) I.room

theorem Inv.num_dvd (I : Inv s) : s.ring.num ∣ 2 ^ 16 := by
  obtain ⟨k, hk, h⟩ := I.size
  rw [h]
  exact Nat.pow_dvd_pow 2 (by omega)

theorem Inv.published_length (I : Inv s) : s.published.length = s.called.length + s.pending.length := by
  rw [← List.length_append, I.once]

/-- the place of the next used element -/
theorem Inv.usedIdx_mod (I : Inv s) : s.ring.usedIdx % s.ring.num = (s.ring.lastUsed + s.pending.length) % s.ring.num := by
  rw [I.usedIdx, Nat.mod_mod_of_dvd _ I.num_dvd, I.published_length, I.lastUsed, Nat.mod_add_mod]

/-- **What the interrupt handler does.** -/
theorem Inv.irq (I : Inv s) : ∃ r' free chain, virtioMmioIrqRing s.ring = some (r', s.pending) ∧
    SameRings { s.ring with lastUsed := (s.ring.lastUsed + s.pending.length) % s.ring.num } r' ∧
    Layout r' (s.held ++ s.unread ++ s.taken) free chain := by
  obtain ⟨free, chain, L⟩ := I.parts
  have hp : s.inFlight.Perm (s.pending.map (·.id) ++ (s.held ++ s.unread ++ s.taken)) := List.perm_append_comm
  have L' := L.heads_perm hp
  have hlt : s.ring.lastUsed < s.ring.num := by
    rw [I.lastUsed]
    exact Nat.mod_lt _ I.num_pos
  obtain ⟨r', free', hr, hs, hL⟩ := irqLoop_spec I.num_le s.pending (l := []) L' rfl I.mask rfl hlt I.usedIdx_mod
    I.room I.room I.used
  exact ⟨r', free', chain, hr, hs, hL⟩

theorem Inv.conserved (I : Inv s) : Conserved s where
  parts := I.parts
  once := I.once
  next := by
    obtain ⟨r', free, chain, hr, -⟩ := I.irq
    rw [hr]
    rfl
  quiet h := by
    have hp := I.once
    rw [I.quiet h, List.append_nil] at hp
    exact hp

theorem inv_init (h : Fresh s) : Inv s := by
  obtain ⟨len, p, r, hlen, ha, hu, hr, rfl⟩ := h
  obtain ⟨⟨k, hk, rfl⟩, hs, hL⟩ := virtioAllocRing_spec hlen hr
  have hnum : r.num = 2 ^ k := by rw [hs]; rfl
  have ha' : r.availIdx = 0 := by rw [hs]; exact ha
  have hmask : r.numMask = 2 ^ k - 1 := by
    rw [hs]
    show valpow2 (log2Uint (2 ^ k)) - 1 = 2 ^ k - 1
    rw [log2Uint_two_pow, valpow2_eq (by omega)]
  obtain ⟨free, L⟩ := hL fun _ => []
  refine ⟨⟨free, fun _ => [], ?_⟩, ⟨k, hk, hnum⟩, ?_, ⟨Nat.two_pow_pos 16, ?_⟩, rfl, rfl, ?_, ?_, ?_, fun _ => rfl⟩
  · have hun : unread ⟨r, [], 0, [], false, [], []⟩ = [] := by
      unfold unread
      simp only [ha']
      rfl
    rw [inFlight, hun]
    exact L
  · intro x
    show x &&& r.numMask = x % r.num
    rw [hmask, hnum, Nat.and_two_pow_sub_one_eq_mod]
  · rw [ha']
    decide
  · rw [hs]
    rfl
  · rw [hs]
    exact hu
  · show 0 < r.num
    rw [hnum]
    exact Nat.two_pow_pos k

/-- a step of the driver's that leaves the rings and the counters as they are -/
theorem Inv.driver (I : Inv s) {r : Vring} {held : List Nat} (hs : SameRings s.ring r)
    (hL : ∃ free chain, Layout r (held ++ s.unread ++ s.taken ++ s.pending.map (·.id)) free chain) :
    Inv { s with ring := r, held := held } := by
  obtain ⟨h1, h2, h3, h4, h5, h6, h7, h8, h9, h10⟩ := I
  rw [SameRings] at hs
  have hun : unread { s with ring := r, held := held } = s.unread := by
    unfold unread
    rw [hs]
  refine ⟨?_, ?_, ?_, ?_, h5, ?_, ?_, ?_, ?_, h10⟩
  · rw [inFlight, hun]
    exact hL
  all_goals
    dsimp only
    rw [hs]
    assumption

theorem Inv.layout_of_held (I : Inv s) {head : Nat} (hh : head ∈ s.held) :
    ∃ free chain, s.inFlight.Perm (head :: s.inFlight.erase head) ∧
      Layout s.ring (head :: s.inFlight.erase head) free chain ∧ s.ring.chainFrom s.ring.num head = chain head := by
  obtain ⟨free, chain, L⟩ := I.parts
  have hm : head ∈ s.inFlight := by
    unfold inFlight
    simp [hh]
  have hp := List.perm_cons_erase hm
  exact ⟨free, chain, hp, L.heads_perm hp, chainFrom_eq (L.chains head hm) (L.chain_length_le hm)⟩

theorem Inv.alloc (I : Inv s) {count : Nat} {s' : VirtioSys} (h : virtioStep s (.alloc count) = some s') : Inv s' := by
  obtain ⟨free, chain, L⟩ := I.parts
  rcases L.alloc I.num_le count with hn | ⟨i, r', free', chain', hr, hs, L'⟩
  · rw [virtioStep, hn] at h
    obtain rfl := Option.some.inj h
    exact I
  · rw [virtioStep, hr] at h
    obtain rfl := Option.some.inj h
    exact I.driver hs ⟨free', chain', L'⟩

theorem Inv.splice (I : Inv s) {head desc : Nat} {write : Bool} {s' : VirtioSys}
    (h : virtioStep s (.splice head desc write) = some s') : Inv s' := by
  rw [virtioStep] at h
  split at h
  · rename_i hg
    obtain ⟨hh, hd, hx⟩ := hg
    obtain ⟨r', hr, rfl⟩ := Option.map_eq_some_iff.mp h
    obtain ⟨free, chain, hp, L, hc⟩ := I.layout_of_held hh
    rw [hc] at hd
    obtain ⟨free', chain', hs, L'⟩ := L.splice I.num_le hd (Option.isSome_iff_ne_none.mp hx) hr
    exact I.driver hs ⟨free', chain', L'.heads_perm hp.symm⟩
  · cases h

theorem Inv.fill (I : Inv s) {head desc flags : Nat} {s' : VirtioSys}
    (h : virtioStep s (.fill head desc flags) = some s') : Inv s' := by
  rw [virtioStep] at h
  split at h
  · rename_i hg
    obtain rfl := Option.some.inj h
    obtain ⟨free, chain, L⟩ := I.parts
    exact I.driver rfl ⟨free, chain, L.fill hg.2.2⟩
  · cases h

theorem Inv.submit (I : Inv s) {head : Nat} {s' : VirtioSys} (h : virtioStep s (.submit head) = some s') : Inv s' := by
  rw [virtioStep] at h
  split at h
  · rename_i hh
    obtain rfl := Option.some.inj h
    obtain ⟨free, chain, L⟩ := I.parts
    have hle := I.num_le
    have hlt : s.unread.length + 1 ≤ s.ring.num := by
      have h1 := L.heads_length_le
      have h2 := List.length_pos_of_mem hh
      simp only [inFlight, List.length_append] at h1
      omega
    rw [unread, Ring.window_length] at hlt
    have hcell : s.ring.availIdx % s.ring.num =
        (s.lastAvail % s.ring.num + (s.ring.availIdx + (2 ^ 16 - s.lastAvail)) % 2 ^ 16) % s.ring.num := by
      have hd := I.num_dvd
      have he : s.ring.availIdx = (s.lastAvail + (s.ring.availIdx + (2 ^ 16 - s.lastAvail)) % 2 ^ 16) % 2 ^ 16 := by
        have := I.avail_lt
        omega
      conv_lhs => rw [he]
      rw [Nat.mod_mod_of_dvd _ hd, Nat.mod_add_mod]
    have hcount : ((s.ring.availIdx + 1) % 2 ^ 16 + (2 ^ 16 - s.lastAvail)) % 2 ^ 16 =
        (s.ring.availIdx + (2 ^ 16 - s.lastAvail)) % 2 ^ 16 + 1 := by
      have := I.avail_lt
      omega
    have hun : unread { s with ring := virtioSubmitChain s.ring head, held := s.held.erase head } =
        s.unread ++ [head] := by
      show Ring.window (Function.update s.ring.availRing (s.ring.availIdx &&& s.ring.numMask) head) s.ring.num
        (s.lastAvail % s.ring.num) (((s.ring.availIdx + 1) % 2 ^ 16 + (2 ^ 16 - s.lastAvail)) % 2 ^ 16) = _
      rw [hcount, I.mask, hcell]
      exact Ring.window_update _ _ hlt
    have hp : s.inFlight.Perm (s.held.erase head ++ (s.unread ++ [head]) ++ s.taken ++ s.pending.map (·.id)) := by
      refine ((?_ : List.Perm _ _).append_right _).append_right _
      have h1 := (List.perm_cons_erase hh).append_right s.unread
      refine h1.trans ?_
      rw [← List.append_assoc]
      exact (List.perm_append_singleton head (s.held.erase head ++ s.unread)).symm
    refine ⟨⟨free, chain, ?_⟩, I.size, I.mask, ⟨I.avail_lt.1, Nat.mod_lt _ (by decide)⟩, I.once, I.used, I.lastUsed,
      I.usedIdx, I.room, I.quiet⟩
    rw [inFlight, hun]
    exact (L.heads_perm hp).frame rfl rfl rfl rfl
  · cases h

theorem Inv.take (I : Inv s) {s' : VirtioSys} (h : virtioStep s .take = some s') : Inv s' := by
  rw [virtioStep] at h
  split at h
  · cases h
  · rename_i hne
    obtain rfl := Option.some.inj h
    obtain ⟨free, chain, L⟩ := I.parts
    have hlt := I.avail_lt
    have hcount : (s.ring.availIdx + (2 ^ 16 - s.lastAvail)) % 2 ^ 16 =
        (s.ring.availIdx + (2 ^ 16 - (s.lastAvail + 1) % 2 ^ 16)) % 2 ^ 16 + 1 := by
      omega
    have hcell : (s.lastAvail + 1) % 2 ^ 16 % s.ring.num = (s.lastAvail % s.ring.num + 1) % s.ring.num := by
      rw [Nat.mod_mod_of_dvd _ I.num_dvd, Nat.mod_add_mod]
    have hun : s.unread = s.ring.availRing (s.lastAvail % s.ring.num) ::
        unread { s with lastAvail := (s.lastAvail + 1) % 2 ^ 16,
                        taken := s.ring.availRing (s.lastAvail % s.ring.num) :: s.taken } := by
      unfold unread
      rw [hcount, Ring.window_succ _ _ _ _ (Nat.mod_lt _ I.num_pos)]
      dsimp only
      rw [hcell]
    refine ⟨⟨free, chain, L.heads_perm ?_⟩, I.size, I.mask, ⟨Nat.mod_lt _ (by decide), hlt.2⟩, I.once, I.used,
      I.lastUsed, I.usedIdx, I.room, I.quiet⟩
    unfold inFlight
    rw [hun]
    refine List.Perm.append_right _ ?_
    rw [List.append_assoc, List.append_assoc]
    exact (List.perm_middle.symm).append_left _

theorem Inv.complete (I : Inv s) {head len : Nat} {s' : VirtioSys} (hroom : s.pending.length + 1 < s.ring.num)
    (h : virtioStep s (.complete head len) = some s') : Inv s' := by
  rw [virtioStep] at h
  split at h
  · rename_i hh
    obtain rfl := Option.some.inj h
    obtain ⟨free, chain, L⟩ := I.parts
    have hpend : (s.published ++ [VringUsedElem.mk head len]).drop s.called.length = s.pending ++ [VringUsedElem.mk head len] := by
      rw [List.drop_append_of_le_length]
      · rfl
      · rw [I.published_length]
        exact Nat.le_add_right _ _
    refine ⟨⟨free, chain, ?_⟩, I.size, I.mask, I.avail_lt, ?_, ?_, I.lastUsed, ?_, ?_, fun h => by cases h⟩
    · have hp : s.inFlight.Perm (s.held ++ s.unread ++ s.taken.erase head ++
          (s.pending ++ [VringUsedElem.mk head len]).map (·.id)) := by
        unfold inFlight
        rw [List.map_append, List.append_assoc, List.append_assoc, List.append_assoc, List.append_assoc]
        refine List.Perm.append_left _ (List.Perm.append_left _ ?_)
        refine ((List.perm_cons_erase hh).append_right _).trans ?_
        rw [← List.append_assoc]
        exact (List.perm_append_singleton head _).symm
      show Layout _ (s.held ++ s.unread ++ s.taken.erase head ++
        ((s.published ++ [VringUsedElem.mk head len]).drop s.called.length).map (·.id)) free chain
      rw [hpend]
      exact (L.heads_perm hp).frame rfl rfl rfl rfl
    · show s.called ++ (s.published ++ [VringUsedElem.mk head len]).drop s.called.length = _
      rw [hpend, ← List.append_assoc, I.once]
    · show Ring.window (Function.update s.ring.usedRing (s.ring.usedIdx % s.ring.num) (VringUsedElem.mk head len)) s.ring.num
        s.ring.lastUsed ((s.published ++ [VringUsedElem.mk head len]).drop s.called.length).length =
        (s.published ++ [VringUsedElem.mk head len]).drop s.called.length
      rw [hpend, List.length_append, List.length_singleton, I.usedIdx_mod, Ring.window_update _ _ I.room, I.used]
    · show (s.ring.usedIdx + 1) % 2 ^ 16 = (s.published ++ [VringUsedElem.mk head len]).length % 2 ^ 16
      rw [I.usedIdx, List.length_append, List.length_singleton, Nat.mod_add_mod]
    · show ((s.published ++ [VringUsedElem.mk head len]).drop s.called.length).length < s.ring.num
      rw [hpend, List.length_append]
      exact hroom
  · cases h

theorem Inv.irqStep (I : Inv s) {s' : VirtioSys} (h : virtioStep s .irq = some s') : Inv s' := by
  rw [virtioStep] at h
  split at h
  · obtain ⟨r', free, chain, hr, hs, hL⟩ := I.irq
    rw [hr] at h
    obtain rfl := Option.some.inj h
    have hpend : s.published.drop (s.called ++ s.pending).length = [] := by
      rw [I.once]
      exact List.drop_length
    obtain ⟨h1, h2, h3, h4, h5, h6, h7, h8, h9, h10⟩ := I
    rw [SameRings] at hs
    have hun : unread { s with ring := r', irqStatus := false, called := s.called ++ s.pending } = s.unread := by
      unfold unread
      rw [hs]
    refine ⟨⟨free, chain, ?_⟩, ?_, ?_, ?_, ?_, ?_, ?_, ?_, ?_, fun _ => hpend⟩
    · show Layout r' (s.held ++ _ ++ s.taken ++ (s.published.drop (s.called ++ s.pending).length).map (·.id)) free chain
      rw [hun, hpend, List.map_nil, List.append_nil]
      exact hL
    · dsimp only
      rw [hs]
      exact h2
    · dsimp only
      rw [hs]
      exact h3
    · dsimp only
      rw [hs]
      exact h4
    · show (s.called ++ s.pending) ++ s.published.drop (s.called ++ s.pending).length = s.published
      rw [hpend, List.append_nil, h5]
    · show Ring.window _ _ _ (s.published.drop (s.called ++ s.pending).length).length =
        s.published.drop (s.called ++ s.pending).length
      rw [hpend]
      rfl
    · dsimp only
      rw [hs]
      dsimp only
      rw [h7, List.length_append, Nat.mod_add_mod]
    · dsimp only
      rw [hs]
      exact h8
    · show (s.published.drop (s.called ++ s.pending).length).length < r'.num
      rw [hpend, hs]
      exact Nat.lt_of_le_of_lt (Nat.zero_le _) h9
  · obtain rfl := Option.some.inj h
    exact I

/-- every step keeps the invariant, if it does not fill the used ring -/
theorem Inv.step (I : Inv s) {a : VirtioOp} {s' : VirtioSys} (hg : Unfilled s a) (h : virtioStep s a = some s') :
    Inv s' := by
  cases a with
  | alloc count => exact I.alloc h
  | splice head desc write => exact I.splice h
  | fill head desc flags => exact I.fill h
  | submit head => exact I.submit h
  | take => exact I.take h
  | complete head len => exact I.complete hg h
  | otherRing =>
    obtain rfl := Option.some.inj h
    exact ⟨I.parts, I.size, I.mask, I.avail_lt, I.once, I.used, I.lastUsed, I.usedIdx, I.room, fun h => by cases h⟩
  | irq => exact I.irqStep h

/-- **Virtio ring conservation**: in every run in which fewer used elements than the ring holds are published
between two interrupts, the descriptors stay partitioned and every used element reaches the callback once. -/
theorem conserved_run (h : virtioSys.Run Unfilled s) : Conserved s :=
  (h.invariant (fun _ h0 => inv_init h0) fun _ _ _ I hg hst => I.step hg hst).conserved

/-- a ring of two descriptors, just set up in zeroed memory -/
def ringOfTwo : VirtioSys where
  ring := (List.range 2).foldl virtioFreeDesc (vringInit 2 ⟨fun _ => ⟨0, 0⟩, 0, fun _ => 0, 0, fun _ => ⟨0, 0⟩⟩)
  held := []
  lastAvail := 0
  taken := []
  irqStatus := false
  published := []
  called := []

theorem fresh_ringOfTwo : Fresh ringOfTwo :=
  ⟨2, ⟨fun _ => ⟨0, 0⟩, 0, fun _ => 0, 0, fun _ => ⟨0, 0⟩⟩, _, by decide, rfl, rfl, rfl, rfl⟩

theorem conserved_one : ∃ s, Machine.execIf Unfilled virtioStep ringOfTwo
    [.alloc 1, .submit 1, .take, .complete 1 512, .irq] = some s ∧ s.called = [⟨1, 512⟩] ∧ Conserved s := by
  have hr : virtioSys.Run Unfilled ringOfTwo := .init fresh_ringOfTwo
  obtain ⟨s, hs, hc⟩ : ∃ s, Machine.execIf Unfilled virtioStep ringOfTwo
      [.alloc 1, .submit 1, .take, .complete 1 512, .irq] = some s ∧ s.called = [⟨1, 512⟩] := ⟨_, rfl, rfl⟩
  exact ⟨s, hs, hc, conserved_run (hr.execIf _ hs)⟩

/-- two completions fill the ring of two: the interrupt takes its full turn for none -/
theorem not_conserved : ¬ ∀ s, virtioSys.Reach s → Conserved s := by
  intro hall
  have hr : virtioSys.Reach ringOfTwo := .init fresh_ringOfTwo
  obtain ⟨s, hs, hq, hc, hp⟩ : ∃ s, Machine.exec virtioStep ringOfTwo
      [.alloc 1, .alloc 1, .submit 1, .submit 0, .take, .take, .complete 1 512, .complete 0 512, .irq] = some s ∧
      s.irqStatus = false ∧ s.called = [] ∧ s.published = [⟨1, 512⟩, ⟨0, 512⟩] := ⟨_, rfl, rfl, rfl, rfl⟩
  have h := (hall s (hr.exec _ hs)).quiet hq
  rw [hc, hp] at h
  cases h

end VirtioSys
end LkHv
