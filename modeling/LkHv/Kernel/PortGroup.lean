import LkHv.Kernel.Port
import LkHv.Lib.Machine
import LkHv.Lib.Members

/-!
# Port groups

`port_group_remove` takes a read port off the list of its group and leaves `gport` as it was.

* `portSys`          the calls that make, join and close ports, with any arguments that are not freed handles;
* `MembersOk`        `gport` and the lists of the groups say the same, no node is deleted twice, and
  `thread_lock` is free;
* `PortsInv`         the invariant: that, and the same of read ports and their write ports;
* `members_ok`       every state is `MembersOk` in runs that remove no member;
* `members_ok_fails` not so after one removal.
-/

namespace LkHv
namespace Ports

inductive PortCall
  | create (mem : Option Nat) (bufMem : Bool) (name : Option (List UInt8)) (mode : Nat) (out : Bool)
  | open (mem : Option Nat) (bufMem : Bool) (name : Option (List UInt8)) (ctx : Nat) (out : Bool)
  | group (mem : Option Nat) (ports : List Nat) (null out : Bool)
  | groupAdd (group port : Option Nat)
  | groupRemove (group port : Option Nat)
  | close (port : Option Nat)
  | destroy (port : Option Nat)

def perform (s : Ports) : PortCall → Ports × Int
  | .create mem bufMem name mode out => s.portCreate mem bufMem name mode out
  | .open mem bufMem name ctx out => s.portOpen mem bufMem name ctx out
  | .group mem ports null out => s.portGroup mem ports null out
  | .groupAdd group port => s.portGroupAdd group port
  | .groupRemove group port => s.portGroupRemove group port
  | .close port => s.portClose port
  | .destroy port => s.portDestroy port

/-- the handles a call is given -/
def PortCall.handles : PortCall → List Nat
  | .create .. => []
  | .open .. => []
  | .group _ ports .. => ports
  | .groupAdd g r => g.toList ++ r.toList
  | .groupRemove g r => g.toList ++ r.toList
  | .close port => port.toList
  | .destroy port => port.toList

/-- the address that `calloc` returns -/
def PortCall.mem : PortCall → List Nat
  | .create mem .. => mem.toList
  | .open mem .. => mem.toList
  | .group mem .. => mem.toList
  | _ => []

/-- no handle was freed, `calloc` returns memory that is free, and the caller gets `thread_lock` -/
def portStep (s : Ports) (c : PortCall) : Option Ports :=
  if s.locked = false ∧ (∀ h ∈ c.handles, s.live h = true) ∧ ∀ a ∈ c.mem, s.live a = false then
    some (s.perform c).1
  else none

def portSys : Machine Ports PortCall := .ofFun (· = portInit) portStep

/-- Membership in groups.  `gport` of a read port is a group just if the port is on its list, once; what is on
a list is alive; no node was deleted that is on no list, and no call kept `thread_lock`. -/
structure MembersOk (s : Ports) : Prop where
  member : ∀ r rp g, s.readPorts r = some rp →
    (rp.gport = some g ↔ ∃ pg, s.groups g = some pg ∧ pg.rpList.count r = 1)
  once : ∀ g pg, s.groups g = some pg → pg.rpList.Nodup
  alive : ∀ g pg, s.groups g = some pg → ∀ r ∈ pg.rpList, (s.readPorts r).isSome
  deleted : s.fault = false
  unlocked : s.locked = false

/-- the guard: no member is removed -/
def RemovesNoMember (s : Ports) : PortCall → Prop
  | .groupRemove (some g) (some r) => (s.groups g).isSome → (s.readPorts r).bind ReadPort.gport ≠ some g
  | _ => True

instance (s : Ports) (c : PortCall) : Decidable (RemovesNoMember s c) := by
  unfold RemovesNoMember
  split <;> infer_instance

/-! ## the invariant -/

def gportOf (s : Ports) (r : Nat) : Option Nat := (s.readPorts r).bind ReadPort.gport
def wportOf (s : Ports) (r : Nat) : Option Nat := (s.readPorts r).bind ReadPort.wport
def groupList (s : Ports) (g : Nat) : Option (List Nat) := (s.groups g).map PortGroup.rpList
def readerList (s : Ports) (w : Nat) : Option (List Nat) := (s.writePorts w).map WritePort.rpList

structure PortsInv (s : Ports) : Prop where
  groups : Members s.gportOf s.groupList
  readers : Members s.wportOf s.readerList
  named : s.writePortList.Nodup
  names : ∀ w, w ∈ s.writePortList ↔ (s.writePorts w).isSome
  /-- a write port has a buffer just if it has no reader -/
  wbuf : ∀ w wp, s.writePorts w = some wp → ((s.buf w).isSome ↔ wp.rpList = [])
  rbuf : ∀ r, (s.readPorts r).isSome → (s.buf r).isSome
  /-- an address is that of one object -/
  write : ∀ h, (s.writePorts h).isSome → s.readPorts h = none
  read : ∀ h, (s.readPorts h).isSome → s.groups h = none
  unlocked : s.locked = false
  deleted : s.fault = false

section
variable {s s' : Ports} {r w g h : Nat}

theorem groupList_eq {pg : PortGroup} (h : s.groups g = some pg) : s.groupList g = some pg.rpList := by
  unfold groupList
  rw [h]
  rfl

theorem readerList_eq {wp : WritePort} (h : s.writePorts w = some wp) : s.readerList w = some wp.rpList := by
  unfold readerList
  rw [h]
  rfl

theorem gportOf_eq {rp : ReadPort} (h : s.readPorts r = some rp) : s.gportOf r = rp.gport := by
  unfold gportOf
  rw [h]
  rfl

theorem wportOf_eq {rp : ReadPort} (h : s.readPorts r = some rp) : s.wportOf r = rp.wport := by
  unfold wportOf
  rw [h]
  rfl

theorem gportOf_update {x : Option ReadPort} (h : s'.readPorts = Function.update s.readPorts r x) :
    s'.gportOf = Function.update s.gportOf r (x.bind ReadPort.gport) := by
  funext q
  unfold gportOf
  rw [h]
  by_cases e : q = r
  · subst e
    rw [Function.update_self, Function.update_self]
  · rw [Function.update_of_ne e, Function.update_of_ne e]

theorem wportOf_update {x : Option ReadPort} (h : s'.readPorts = Function.update s.readPorts r x) :
    s'.wportOf = Function.update s.wportOf r (x.bind ReadPort.wport) := by
  funext q
  unfold wportOf
  rw [h]
  by_cases e : q = r
  · subst e
    rw [Function.update_self, Function.update_self]
  · rw [Function.update_of_ne e, Function.update_of_ne e]

theorem groupList_update {x : Option PortGroup} (h : s'.groups = Function.update s.groups g x) :
    s'.groupList = Function.update s.groupList g (x.map PortGroup.rpList) := by
  funext q
  unfold groupList
  rw [h]
  by_cases e : q = g
  · subst e
    rw [Function.update_self, Function.update_self]
  · rw [Function.update_of_ne e, Function.update_of_ne e]

theorem readerList_update {x : Option WritePort} (h : s'.writePorts = Function.update s.writePorts w x) :
    s'.readerList = Function.update s.readerList w (x.map WritePort.rpList) := by
  funext q
  unfold readerList
  rw [h]
  by_cases e : q = w
  · subst e
    rw [Function.update_self, Function.update_self]
  · rw [Function.update_of_ne e, Function.update_of_ne e]

theorem readPorts_of_gport (h : s.gportOf r = some g) : ∃ rp, s.readPorts r = some rp ∧ rp.gport = some g :=
  Option.bind_eq_some_iff.mp h

theorem readPorts_of_wport (h : s.wportOf r = some w) : ∃ rp, s.readPorts r = some rp ∧ rp.wport = some w :=
  Option.bind_eq_some_iff.mp h

theorem PortsInv.ok (hi : PortsInv s) : MembersOk s where
  member r rp g hr := by
    rw [← gportOf_eq hr]
    constructor
    · intro hg
      have ho := hi.groups.owner hg
      unfold groupList at ho
      rw [Option.isSome_map] at ho
      obtain ⟨pg, hpg⟩ := Option.isSome_iff_exists.mp ho
      have hl := groupList_eq hpg
      exact ⟨pg, hpg, List.count_eq_one_of_mem (hi.groups.nodup hl) ((hi.groups.mem hl r).mpr hg)⟩
    · rintro ⟨pg, hpg, hc⟩
      rw [← hi.groups.mem (groupList_eq hpg)]
      exact List.count_pos_iff.mp (by omega)
  once g pg hpg := hi.groups.nodup (groupList_eq hpg)
  alive g pg hpg r hr := by
    obtain ⟨rp, hrp, -⟩ := readPorts_of_gport ((hi.groups.mem (groupList_eq hpg) r).mp hr)
    rw [hrp]
    rfl
  deleted := hi.deleted
  unlocked := hi.unlocked

theorem PortsInv.init : PortsInv portInit where
  groups := .empty
  readers := .empty
  named := List.nodup_nil
  names w := ⟨fun hw => (by cases hw), fun hw => by cases hw⟩
  wbuf w wp hw := by cases hw
  rbuf r hr := by cases hr
  write h hw := rfl
  read h hr := rfl
  unlocked := rfl
  deleted := rfl

/-- nothing of the invariant is about the waiting threads -/
theorem PortsInv.waits (hi : PortsInv s) (wait : Nat → List PortWaiter) (ready : List PortReady) :
    PortsInv { s with wait := wait, ready := ready } :=
  ⟨hi.groups, hi.readers, hi.named, hi.names, hi.wbuf, hi.rbuf, hi.write, hi.read, hi.unlocked, hi.deleted⟩

theorem PortsInv.wakeOne (hi : PortsInv s) (h : Nat) : PortsInv (s.wakeOne h).1 := by
  unfold Ports.wakeOne
  split
  · exact hi
  · exact hi.waits _ _

theorem live_eq_false (h : s.live r = false) : s.writePorts r = none ∧ s.readPorts r = none ∧ s.groups r = none := by
  unfold live at h
  simpa [and_assoc] using h

/-! ## ports made and opened -/

theorem PortsInv.create (hi : PortsInv s) (mem : Option Nat) (hm : ∀ a ∈ mem.toList, s.live a = false)
    (bufMem : Bool) (name : Option (List UInt8)) (mode : Nat) (out : Bool) :
    PortsInv (s.portCreate mem bufMem name mode out).1 := by
  unfold portCreate
  cases name with
  | none => exact hi
  | some name =>
    dsimp only
    split
    · exact hi
    · split
      · exact hi
      · split
        · exact hi
        · split
          · split <;> exact hi
          · cases mem with
            | none => exact hi
            | some w =>
              dsimp only
              split
              · exact hi
              · obtain ⟨hw, hr, hg⟩ := live_eq_false (hm w (by simp))
                have hl : s.readerList w = none := by
                  unfold readerList
                  rw [hw]
                  rfl
                refine ⟨hi.groups, ?_, ?_, fun v => ?_, fun v wp hv => ?_, fun r hr' => ?_, fun h hh => ?_, hi.read,
                  hi.unlocked, hi.deleted⟩
                · rw [readerList_update rfl]
                  exact hi.readers.create hl
                · rw [List.nodup_append]
                  refine ⟨hi.named, List.nodup_singleton w, ?_⟩
                  rintro a ha b hb rfl
                  rw [List.mem_singleton.mp hb, hi.names, hw] at ha
                  cases ha
                · dsimp only
                  rw [List.mem_append, List.mem_singleton, hi.names]
                  by_cases e : v = w
                  · subst e
                    rw [Function.update_self]
                    exact ⟨fun _ => rfl, fun _ => .inr rfl⟩
                  · rw [Function.update_of_ne e]
                    exact ⟨fun hv => hv.resolve_right e, .inl⟩
                · dsimp only at hv ⊢
                  by_cases e : v = w
                  · subst e
                    rw [Function.update_self] at hv
                    cases hv
                    rw [Function.update_self]
                    exact ⟨fun _ => rfl, fun _ => rfl⟩
                  · rw [Function.update_of_ne e] at hv ⊢
                    exact hi.wbuf v wp hv
                · dsimp only
                  have e : r ≠ w := by
                    rintro rfl
                    rw [hr] at hr'
                    cases hr'
                  rw [Function.update_of_ne e]
                  exact hi.rbuf r hr'
                · dsimp only at hh
                  by_cases e : h = w
                  · subst e
                    exact hr
                  · rw [Function.update_of_ne e] at hh
                    exact hi.write h hh

theorem PortsInv.addReader (hi : PortsInv s) {wp : WritePort} (hw : s.writePorts w = some wp)
    (hr : s.live r = false) (ctx : Nat) (buf : PortBuf) : PortsInv (s.addReader w r ctx wp buf) := by
  obtain ⟨hrw, hrr, hrg⟩ := live_eq_false hr
  have hwr : r ≠ w := by
    rintro rfl
    rw [hw] at hrw
    cases hrw
  have hg : s.gportOf r = none := by
    unfold gportOf
    rw [hrr]
    rfl
  have hp : s.wportOf r = none := by
    unfold wportOf
    rw [hrr]
    rfl
  refine ⟨?_, ?_, hi.named, fun v => ?_, fun v vp hv => ?_, fun q hq => ?_, fun h hh => ?_, fun h hh => ?_,
    hi.unlocked, hi.deleted⟩
  · rw [gportOf_update rfl]
    show Members (Function.update s.gportOf r none) s.groupList
    rw [← hg, Function.update_eq_self]
    exact hi.groups
  · rw [wportOf_update rfl, readerList_update rfl]
    exact hi.readers.link hp (readerList_eq hw)
  · refine (hi.names v).trans ?_
    show _ ↔ (Function.update s.writePorts w _ v).isSome
    by_cases e : v = w
    · subst e
      rw [Function.update_self, hw]
      exact Iff.rfl
    · rw [Function.update_of_ne e]
  · dsimp only [Ports.addReader] at hv ⊢
    by_cases e : v = w
    · subst e
      rw [Function.update_self] at hv
      cases hv
      rw [Function.update_of_ne hwr.symm, Function.update_self]
      simp
    · rw [Function.update_of_ne e] at hv
      have e' : v ≠ r := by
        rintro rfl
        rw [hrw] at hv
        cases hv
      rw [Function.update_of_ne e', Function.update_of_ne e]
      exact hi.wbuf v vp hv
  · dsimp only [Ports.addReader] at hq ⊢
    by_cases e : q = r
    · subst e
      rw [Function.update_self]
      rfl
    · rw [Function.update_of_ne e] at hq
      have e' : q ≠ w := by
        rintro rfl
        rw [hi.write q (by rw [hw]; rfl)] at hq
        cases hq
      rw [Function.update_of_ne e, Function.update_of_ne e']
      exact hi.rbuf q hq
  · dsimp only [Ports.addReader] at hh ⊢
    have hh' : (s.writePorts h).isSome := by
      by_cases e : h = w
      · subst e
        rw [hw]
        rfl
      · rwa [Function.update_of_ne e] at hh
    have e : h ≠ r := by
      rintro rfl
      rw [hrw] at hh'
      cases hh'
    rw [Function.update_of_ne e]
    exact hi.write h hh'
  · dsimp only [Ports.addReader] at hh ⊢
    by_cases e : h = r
    · subst e
      exact hrg
    · rw [Function.update_of_ne e] at hh
      exact hi.read h hh

theorem PortsInv.open (hi : PortsInv s) (mem : Option Nat) (hm : ∀ a ∈ mem.toList, s.live a = false)
    (bufMem : Bool) (name : Option (List UInt8)) (ctx : Nat) (out : Bool) :
    PortsInv (s.portOpen mem bufMem name ctx out).1 := by
  unfold portOpen
  cases name with
  | none => exact hi
  | some name =>
    dsimp only
    split
    · exact hi
    · cases mem with
      | none => exact hi
      | some r =>
        dsimp only
        split
        · exact hi
        · split
          · exact hi
          · rename_i w wp hf
            obtain ⟨v, hv, hwp⟩ := Option.bind_eq_some_iff.mp hf
            obtain ⟨vp, hvp, e⟩ := Option.map_eq_some_iff.mp hwp
            cases e
            have hr := hm r (by simp)
            split
            · exact hi.addReader hvp hr _ _
            · split
              · exact hi
              · exact hi.addReader hvp hr _ _

/-! ## groups -/

theorem setGport_eq {rp : ReadPort} (h : s.readPorts r = some rp) (g : Option Nat) :
    s.setGport r g = { s with readPorts := Function.update s.readPorts r (some { rp with gport := g }) } := by
  unfold setGport
  rw [h]

theorem linkGroup_eq {pg : PortGroup} (h : s.groups g = some pg) (r : Nat) :
    s.linkGroup g r = { s with groups := Function.update s.groups g (some ⟨pg.rpList ++ [r]⟩) } := by
  unfold linkGroup
  rw [h]

/-- the read ports of a list leave their groups -/
theorem foldl_setGport (l : List Nat) (h : ∀ r ∈ l, (s.readPorts r).isSome) :
    l.foldl (fun s r => s.setGport r none) s = { s with
      readPorts := fun r =>
        if r ∈ l then (s.readPorts r).map fun rp => { rp with gport := none } else s.readPorts r } := by
  induction l generalizing s with
  | nil => rfl
  | cons r l ih =>
    obtain ⟨rp, hr⟩ := Option.isSome_iff_exists.mp (h r List.mem_cons_self)
    rw [List.foldl_cons, setGport_eq hr, ih]
    · congr 1
      funext q
      dsimp only
      by_cases e : q = r
      · subst e
        rw [Function.update_self, if_pos List.mem_cons_self, hr]
        split <;> rfl
      · rw [Function.update_of_ne e]
        simp only [List.mem_cons, e, false_or]
    · intro q hq
      dsimp only
      by_cases e : q = r
      · subst e
        rw [Function.update_self]
        rfl
      · rw [Function.update_of_ne e]
        exact h q (List.mem_cons_of_mem _ hq)

/-- what changes groups and `gport` only -/
theorem PortsInv.regroup (hi : PortsInv s) {rps : Nat → Option ReadPort} {gs : Nat → Option PortGroup}
    {wait : Nat → List PortWaiter} {ready : List PortReady}
    (hg : Members (gportOf { s with readPorts := rps }) (groupList { s with groups := gs }))
    (hw : wportOf { s with readPorts := rps } = s.wportOf) (hs : ∀ q, (rps q).isSome = (s.readPorts q).isSome)
    (hgs : ∀ q, (gs q).isSome → (s.groups q).isSome ∨ s.readPorts q = none) :
    PortsInv { s with readPorts := rps, groups := gs, wait := wait, ready := ready } where
  groups := hg
  readers := by
    have := hi.readers
    rw [← hw] at this
    exact this
  named := hi.named
  names := hi.names
  wbuf := hi.wbuf
  rbuf q hq := hi.rbuf q (hs q ▸ hq)
  write h hh := by
    have := hs h
    rw [hi.write h hh] at this
    exact Option.not_isSome_iff_eq_none.mp (by rw [this]; decide)
  read h hh := by
    have hr : (s.readPorts h).isSome := hs h ▸ hh
    show gs h = none
    cases hgh : gs h with
    | none => rfl
    | some pg =>
      rcases hgs h (by rw [hgh]; rfl) with h1 | h1
      · rw [hi.read h hr] at h1
        cases h1
      · rw [h1] at hr
        cases hr
  unlocked := hi.unlocked
  deleted := hi.deleted

theorem wportOf_setGport {rp : ReadPort} (hr : s.readPorts r = some rp) (x : Option Nat) :
    wportOf { s with readPorts := Function.update s.readPorts r (some { rp with gport := x }) } = s.wportOf := by
  rw [wportOf_update rfl]
  show Function.update s.wportOf r rp.wport = s.wportOf
  rw [← wportOf_eq hr, Function.update_eq_self]

theorem PortsInv.join (hi : PortsInv s) {rp : ReadPort} {pg : PortGroup} (hr : s.readPorts r = some rp)
    (hn : rp.gport = none) (hg : s.groups g = some pg) :
    PortsInv ((s.setGport r (some g)).linkGroup g r) ∧
      ((s.setGport r (some g)).linkGroup g r).groups g = some ⟨pg.rpList ++ [r]⟩ := by
  rw [setGport_eq hr, linkGroup_eq (by exact hg)]
  refine ⟨hi.regroup ?_ (wportOf_setGport hr _) (fun q => ?_) (fun q hq => .inl ?_), Function.update_self ..⟩
  · rw [gportOf_update rfl, groupList_update rfl]
    exact hi.groups.link ((gportOf_eq hr).trans hn) (groupList_eq hg)
  · dsimp only
    by_cases e : q = r
    · subst e
      rw [Function.update_self, hr]
      rfl
    · rw [Function.update_of_ne e]
  · by_cases e : q = g
    · subst e
      rw [hg]
      rfl
    · rwa [Function.update_of_ne e] at hq

/-- a group goes, and its members stay alone -/
theorem PortsInv.dissolve (hi : PortsInv s) {pg : PortGroup} (hg : s.groups g = some pg) :
    let t := pg.rpList.foldl (fun s r => s.setGport r none) s
    PortsInv { t with groups := Function.update t.groups g none } := by
  have hl := groupList_eq hg
  rw [foldl_setGport _ fun r hr => by
    obtain ⟨rp, hrp, -⟩ := readPorts_of_gport ((hi.groups.mem hl r).mp hr)
    rw [hrp]
    rfl]
  refine hi.regroup ?_ ?_ (fun q => ?_) (fun q hq => .inl ?_)
  · rw [groupList_update rfl]
    convert hi.groups.drop hl using 1
    · funext q
      unfold gportOf
      dsimp only
      split
      · cases s.readPorts q <;> rfl
      · rfl
    · rfl
  · funext q
    unfold wportOf
    dsimp only
    split
    · cases s.readPorts q <;> rfl
    · rfl
  · dsimp only
    split
    · exact Option.isSome_map
    · rfl
  · by_cases e : q = g
    · subst e
      rw [hg]
      rfl
    · rwa [Function.update_of_ne e] at hq

/-- with all ports in the group, or after the group is gone -/
theorem PortsInv.groupLoop (ports done : List Nat) (hi : PortsInv s) (hg : s.groups g = some ⟨done.reverse⟩) :
    ((s.groupLoop g done ports).2 = NO_ERROR ∧ PortsInv (s.groupLoop g done ports).1) ∨
      ((s.groupLoop g done ports).2 ≠ NO_ERROR ∧
        PortsInv { (s.groupLoop g done ports).1 with
          groups := Function.update (s.groupLoop g done ports).1.groups g none }) := by
  induction ports generalizing s done with
  | nil => exact .inl ⟨rfl, hi⟩
  | cons r ports ih =>
    unfold Ports.groupLoop
    split
    · rename_i ctx wport hr
      obtain ⟨h1, h2⟩ := hi.join hr rfl hg
      exact ih (r :: done) h1 (by rw [h2, List.reverse_cons])
    · exact .inr ⟨(by decide : ERR_BAD_HANDLE ≠ NO_ERROR), hi.dissolve hg⟩

theorem PortsInv.group (hi : PortsInv s) (mem : Option Nat) (hm : ∀ a ∈ mem.toList, s.live a = false)
    (ports : List Nat) (null out : Bool) : PortsInv (s.portGroup mem ports null out).1 := by
  unfold portGroup
  split
  · exact hi
  · split
    · exact hi
    · split
      · exact hi
      · cases mem with
        | none => exact hi
        | some g =>
          obtain ⟨-, hr, hg⟩ := live_eq_false (hm g (by simp))
          have hl : s.groupList g = none := by
            unfold groupList
            rw [hg]
            rfl
          have h1 : PortsInv { s with groups := Function.update s.groups g (some ⟨[]⟩)
                                      wait := Function.update s.wait g [] } := by
            refine hi.regroup ?_ rfl (fun _ => rfl) fun q hq => ?_
            · rw [groupList_update rfl]
              exact hi.groups.create hl
            · by_cases e : q = g
              · subst e
                exact .inr hr
              · rw [Function.update_of_ne e] at hq
                exact .inl hq
          dsimp only
          rcases h1.groupLoop ports [] (Function.update_self ..) with ⟨h2, h3⟩ | ⟨h2, h3⟩
          · rw [if_pos h2]
            exact h3
          · rw [if_neg h2]
            exact h3

theorem PortsInv.groupAdd (hi : PortsInv s) (group port : Option Nat) :
    PortsInv (s.portGroupAdd group port).1 := by
  unfold portGroupAdd
  split
  · rename_i r g
    split
    · exact hi
    · rename_i pg hg
      split
      · rename_i ctx wport hr
        split
        · exact hi
        · obtain ⟨h1, -⟩ := hi.join hr rfl hg
          obtain ⟨buf, hb⟩ := Option.isSome_iff_exists.mp (hi.rbuf r (by rw [hr]; rfl))
          have hb' : ((s.setGport r (some g)).linkGroup g r).buf r = some buf := by
            rw [setGport_eq hr, linkGroup_eq (by exact hg)]
            exact hb
          dsimp only
          rw [hb']
          dsimp only
          split
          · exact h1
          · exact h1.wakeOne g
      · exact hi
  · exact hi

/-- a call that finds no member changes nothing -/
theorem PortsInv.groupRemove (hi : PortsInv s) (group port : Option Nat)
    (hg : RemovesNoMember s (.groupRemove group port)) : PortsInv (s.portGroupRemove group port).1 := by
  unfold portGroupRemove
  split
  · rename_i r g
    split
    · exact hi
    · rename_i pg hpg
      rw [if_neg]
      · exact hi
      · intro h1
        apply hg (by rw [hpg]; rfl)
        obtain ⟨rp, hrp, h2⟩ := (Option.any_eq_true _ _).mp h1
        rw [hrp]
        simpa using h2
  · exact hi

/-! ## ports closed and destroyed -/

theorem unlinkGroup_eq {pg : PortGroup} (hg : s.groups g = some pg) (hr : r ∈ pg.rpList) :
    s.unlinkGroup g r = { s with groups := Function.update s.groups g (some ⟨pg.rpList.erase r⟩) } := by
  unfold unlinkGroup
  rw [hg]
  exact if_pos hr

/-- the read port goes from its group, if it has one -/
theorem PortsInv.leaveGroup (hi : PortsInv s) {rp : ReadPort} (hr : s.readPorts r = some rp) :
    ∃ gs, (∀ t : Ports, t.groups = s.groups → t.leaveGport r rp.gport = { t with groups := gs }) ∧
      Members (Function.update s.gportOf r none) (groupList { s with groups := gs }) ∧
      ∀ q, (gs q).isSome → (s.groups q).isSome := by
  have hp := gportOf_eq hr
  cases hg : rp.gport with
  | none =>
    refine ⟨s.groups, fun t ht => ht ▸ rfl, ?_, fun q hq => hq⟩
    rw [← hg, ← hp, Function.update_eq_self]
    exact hi.groups
  | some g =>
    have ho := hi.groups.owner (hp.trans hg)
    unfold groupList at ho
    rw [Option.isSome_map] at ho
    obtain ⟨pg, hpg⟩ := Option.isSome_iff_exists.mp ho
    have hl := groupList_eq hpg
    refine ⟨Function.update s.groups g (some ⟨pg.rpList.erase r⟩), fun t ht => ?_, ?_, fun q hq => ?_⟩
    · show t.unlinkGroup g r = _
      rw [unlinkGroup_eq (by rw [ht]; exact hpg) ((hi.groups.mem hl r).mpr (hp.trans hg)), ht]
    · rw [groupList_update rfl]
      exact hi.groups.unlink (hp.trans hg) hl
    · by_cases e : q = g
      · subst e
        exact ho
      · rwa [Function.update_of_ne e] at hq

theorem unlinkWrite_eq {wp : WritePort} (hw : s.writePorts w = some wp) (hr : r ∈ wp.rpList) :
    s.unlinkWrite w r = { s with
      writePorts := Function.update s.writePorts w (some { wp with rpList := wp.rpList.erase r })
      buf := if wp.rpList.erase r = [] then Function.update (Function.update s.buf w (s.buf r)) r none
        else s.buf } := by
  unfold unlinkWrite
  rw [hw]
  dsimp only
  rw [if_pos hr]
  split <;> rfl

/-- the read port goes from its write port, which gets the buffer back from its last reader -/
theorem PortsInv.leaveWrite (hi : PortsInv s) {rp : ReadPort} (hr : s.readPorts r = some rp) :
    ∃ wps bf, s.leaveWport r rp.wport = { s with writePorts := wps, buf := bf } ∧
      Members (Function.update s.wportOf r none) (readerList { s with writePorts := wps }) ∧
      (∀ v, (wps v).isSome = (s.writePorts v).isSome) ∧
      (∀ v vp, wps v = some vp → ((bf v).isSome ↔ vp.rpList = [])) ∧
      ∀ q, q ≠ r → (s.readPorts q).isSome → (bf q).isSome := by
  have hp := wportOf_eq hr
  cases hw : rp.wport with
  | none =>
    refine ⟨s.writePorts, s.buf, rfl, ?_, fun v => rfl, hi.wbuf, fun q _ => hi.rbuf q⟩
    rw [← hw, ← hp, Function.update_eq_self]
    exact hi.readers
  | some w =>
    have ho := hi.readers.owner (hp.trans hw)
    unfold readerList at ho
    rw [Option.isSome_map] at ho
    obtain ⟨wp, hwp⟩ := Option.isSome_iff_exists.mp ho
    have hl := readerList_eq hwp
    have hmem := (hi.readers.mem hl r).mpr (hp.trans hw)
    have hwr : w ≠ r := by
      rintro rfl
      rw [hi.write w ho] at hr
      cases hr
    refine ⟨_, _, unlinkWrite_eq hwp hmem, ?_, fun v => ?_, fun v vp hv => ?_, fun q hq hqr => ?_⟩
    · rw [readerList_update rfl]
      exact hi.readers.unlink (hp.trans hw) hl
    · by_cases e : v = w
      · subst e
        rw [Function.update_self, hwp]
        rfl
      · rw [Function.update_of_ne e]
    · by_cases e : v = w
      · subst e
        rw [Function.update_self] at hv
        cases hv
        split
        · rename_i hn
          rw [Function.update_of_ne hwr, Function.update_self]
          exact iff_of_true (hi.rbuf r (by rw [hr]; rfl)) hn
        · rename_i hn
          rw [hi.wbuf v wp hwp]
          exact iff_of_false (List.ne_nil_of_mem hmem) hn
      · rw [Function.update_of_ne e] at hv
        split
        · have e' : v ≠ r := by
            rintro rfl
            rw [hi.write v (by rw [hv]; rfl)] at hr
            cases hr
          rw [Function.update_of_ne e', Function.update_of_ne e]
          exact hi.wbuf v vp hv
        · exact hi.wbuf v vp hv
    · have e : q ≠ w := by
        rintro rfl
        rw [hi.write q ho] at hqr
        cases hqr
      split
      · rw [Function.update_of_ne hq, Function.update_of_ne e]
        exact hi.rbuf q hqr
      · exact hi.rbuf q hqr

theorem PortsInv.closeRead (hi : PortsInv s) {rp : ReadPort} (hr : s.readPorts r = some rp) :
    PortsInv (s.closeRead r rp) := by
  obtain ⟨wps, bf, hw, h1, h2, h3, h4⟩ := hi.leaveWrite hr
  obtain ⟨gs, hg, h5, h6⟩ := hi.leaveGroup hr
  have hwr : s.writePorts r = none := by
    cases hw : s.writePorts r with
    | none => rfl
    | some wp =>
      rw [hi.write r (by rw [hw]; rfl)] at hr
      cases hr
  unfold Ports.closeRead
  dsimp only
  rw [hw, hg { s with writePorts := wps, buf := bf } rfl]
  refine ⟨?_, ?_, hi.named, fun v => ?_, fun v vp hv => ?_, fun q hq => ?_, fun h hh => ?_, fun h hh => ?_,
    hi.unlocked, hi.deleted⟩
  · rw [gportOf_update (s := s) rfl]
    exact h5
  · rw [wportOf_update (s := s) rfl]
    exact h1
  · refine (hi.names v).trans ?_
    show _ ↔ (wps v).isSome = true
    rw [h2]
  · have e : v ≠ r := by
      rintro rfl
      have := h2 v
      change wps v = some vp at hv
      rw [hv, hwr] at this
      cases this
    show (Function.update bf r none v).isSome ↔ _
    rw [Function.update_of_ne e]
    exact h3 v vp hv
  · change (Function.update s.readPorts r none q).isSome = true at hq
    show (Function.update bf r none q).isSome = true
    by_cases e : q = r
    · subst e
      rw [Function.update_self] at hq
      cases hq
    · rw [Function.update_of_ne e] at hq ⊢
      exact h4 q e hq
  · change (wps h).isSome = true at hh
    show Function.update s.readPorts r none h = none
    by_cases e : h = r
    · subst e
      rw [Function.update_self]
    · rw [Function.update_of_ne e]
      exact hi.write h (h2 h ▸ hh)
  · change (Function.update s.readPorts r none h).isSome = true at hh
    show gs h = none
    have e : h ≠ r := by
      rintro rfl
      rw [Function.update_self] at hh
      cases hh
    rw [Function.update_of_ne e] at hh
    cases hgh : gs h with
    | none => rfl
    | some pg =>
      have := h6 h (by rw [hgh]; rfl)
      rw [hi.read h hh] at this
      cases this

theorem PortsInv.close (hi : PortsInv s) (port : Option Nat) : PortsInv (s.portClose port).1 := by
  unfold portClose
  cases port with
  | none => exact hi
  | some h =>
    dsimp only
    split
    · rename_i hr
      exact hi.closeRead hr
    · rename_i pg _ hg
      exact (hi.waits _ _).dissolve (by exact hg)
    · rename_i wp hr hg hw
      split
      · exact hi
      · refine ⟨hi.groups, ?_, hi.named, fun v => ?_, fun v vp hv => ?_, hi.rbuf, fun k hk => ?_, hi.read,
          hi.unlocked, hi.deleted⟩
        · rw [readerList_update rfl]
          show Members s.wportOf (Function.update s.readerList h (some wp.rpList))
          rw [← readerList_eq hw, Function.update_eq_self]
          exact hi.readers
        · refine (hi.names v).trans ?_
          show _ ↔ (Function.update s.writePorts h _ v).isSome
          by_cases e : v = h
          · subst e
            rw [Function.update_self, hw]
            exact Iff.rfl
          · rw [Function.update_of_ne e]
        · dsimp only at hv
          by_cases e : v = h
          · subst e
            rw [Function.update_self] at hv
            cases hv
            exact hi.wbuf v wp hw
          · rw [Function.update_of_ne e] at hv
            exact hi.wbuf v vp hv
        · dsimp only at hk
          by_cases e : k = h
          · subst e
            exact hr
          · rw [Function.update_of_ne e] at hk
            exact hi.write k hk
    · exact hi

theorem setWport_eq {rp : ReadPort} (h : s.readPorts r = some rp) (w : Option Nat) :
    s.setWport r w = { s with readPorts := Function.update s.readPorts r (some { rp with wport := w }) } := by
  unfold setWport
  rw [h]

theorem dropReader_eq {rp : ReadPort} (h : s.readPorts r = some rp) : ∃ wait ready, s.dropReader r = { s with
    readPorts := Function.update s.readPorts r (some { rp with wport := none }), wait := wait, ready := ready } := by
  unfold dropReader
  dsimp only
  split
  · exact ⟨_, _, setWport_eq (s := s.wakeAll r ERR_CANCELLED) h none⟩
  · rename_i g _
    exact ⟨_, _, setWport_eq (s := (s.wakeAll r ERR_CANCELLED).wakeAll g ERR_CANCELLED) h none⟩

/-- the read ports of a list lose their write port -/
theorem foldl_dropReader (l : List Nat) (h : ∀ r ∈ l, (s.readPorts r).isSome) : ∃ wait ready,
    l.foldl dropReader s = { s with
      readPorts := fun r => if r ∈ l then (s.readPorts r).map fun rp => { rp with wport := none } else s.readPorts r
      wait := wait, ready := ready } := by
  induction l generalizing s with
  | nil => exact ⟨_, _, rfl⟩
  | cons r l ih =>
    obtain ⟨rp, hr⟩ := Option.isSome_iff_exists.mp (h r List.mem_cons_self)
    obtain ⟨wait, ready, he⟩ := dropReader_eq hr
    rw [List.foldl_cons, he]
    obtain ⟨wait', ready', he'⟩ := @ih { s with
        readPorts := Function.update s.readPorts r (some { rp with wport := none }), wait := wait, ready := ready } <| by
      intro q hq
      dsimp only
      by_cases e : q = r
      · subst e
        rw [Function.update_self]
        rfl
      · rw [Function.update_of_ne e]
        exact h q (List.mem_cons_of_mem _ hq)
    refine ⟨wait', ready', he'.trans ?_⟩
    congr 1
    funext q
    dsimp only
    by_cases e : q = r
    · subst e
      rw [Function.update_self, if_pos List.mem_cons_self, hr]
      split <;> rfl
    · rw [Function.update_of_ne e]
      simp only [List.mem_cons, e, false_or]

/-- the write port goes, and its readers stay with their buffers -/
theorem PortsInv.abandon (hi : PortsInv s) {wp : WritePort} (hw : s.writePorts w = some wp)
    (wait : Nat → List PortWaiter) (ready : List PortReady) :
    PortsInv { s with
      writePortList := s.writePortList.erase w
      readPorts := fun r =>
        if r ∈ wp.rpList then (s.readPorts r).map fun rp => { rp with wport := none } else s.readPorts r
      writePorts := Function.update s.writePorts w none
      buf := Function.update s.buf w none
      wait := wait, ready := ready } := by
  have hl := readerList_eq hw
  have hs : ∀ q, (if q ∈ wp.rpList then (s.readPorts q).map fun rp => { rp with wport := none }
      else s.readPorts q).isSome = (s.readPorts q).isSome := by
    intro q
    split
    · exact Option.isSome_map
    · rfl
  refine ⟨?_, ?_, hi.named.erase w, fun v => ?_, fun v vp hv => ?_, fun r hr => ?_, fun h hh => ?_, fun h hh => ?_,
    hi.unlocked, hi.deleted⟩
  · convert hi.groups using 1
    · funext q
      unfold gportOf
      dsimp only
      split
      · cases s.readPorts q <;> rfl
      · rfl
    · rfl
  · rw [readerList_update rfl]
    convert hi.readers.drop hl using 1
    · funext q
      unfold wportOf
      dsimp only
      split
      · cases s.readPorts q <;> rfl
      · rfl
    · rfl
  · dsimp only
    rw [hi.named.mem_erase_iff, hi.names]
    by_cases e : v = w
    · subst e
      rw [Function.update_self]
      exact ⟨fun hv => absurd rfl hv.1, fun hv => by cases hv⟩
    · rw [Function.update_of_ne e]
      exact ⟨fun hv => hv.2, fun hv => ⟨e, hv⟩⟩
  · dsimp only at hv ⊢
    by_cases e : v = w
    · subst e
      rw [Function.update_self] at hv
      cases hv
    · rw [Function.update_of_ne e] at hv ⊢
      exact hi.wbuf v vp hv
  · dsimp only at hr ⊢
    rw [hs] at hr
    have e : r ≠ w := by
      rintro rfl
      rw [hi.write r (by rw [hw]; rfl)] at hr
      cases hr
    rw [Function.update_of_ne e]
    exact hi.rbuf r hr
  · dsimp only at hh ⊢
    have hh' : (s.writePorts h).isSome := by
      by_cases e : h = w
      · subst e
        rw [hw]
        rfl
      · rwa [Function.update_of_ne e] at hh
    rw [← Option.not_isSome_iff_eq_none, hs, hi.write h hh']
    exact Bool.false_ne_true
  · dsimp only at hh ⊢
    rw [hs] at hh
    exact hi.read h hh

theorem PortsInv.destroy (hi : PortsInv s) (port : Option Nat) : PortsInv (s.portDestroy port).1 := by
  unfold portDestroy
  cases port with
  | none => exact hi
  | some w =>
    dsimp only
    split
    · rename_i mode name rpList hw
      have hmem : w ∈ s.writePortList := (hi.names w).mpr (by rw [hw]; rfl)
      rw [if_pos hmem]
      have hl := readerList_eq hw
      dsimp only
      split
      · rename_i hb
        have he : rpList = [] := (hi.wbuf w _ hw).mp hb
        subst he
        have := hi.abandon hw s.wait s.ready
        simpa using this
      · obtain ⟨wait, ready, he⟩ := @foldl_dropReader { s with writePortList := s.writePortList.erase w } rpList <| by
          intro r hr
          obtain ⟨rp, hrp, -⟩ := readPorts_of_wport ((hi.readers.mem hl r).mp hr)
          dsimp only
          rw [hrp]
          rfl
        rw [he]
        exact hi.abandon hw _ _
    · exact hi

/-! ## runs -/

theorem PortsInv.step (hi : PortsInv s) {c : PortCall} (hg : RemovesNoMember s c) (hs : portStep s c = some s') :
    PortsInv s' := by
  unfold portStep at hs
  split at hs
  · rename_i hc
    obtain ⟨-, -, hm⟩ := hc
    cases hs
    cases c with
    | create mem bufMem name mode out => exact hi.create mem hm bufMem name mode out
    | «open» mem bufMem name ctx out => exact hi.open mem hm bufMem name ctx out
    | group mem ports null out => exact hi.group mem hm ports null out
    | groupAdd group port => exact hi.groupAdd group port
    | groupRemove group port => exact hi.groupRemove group port hg
    | close port => exact hi.close port
    | destroy port => exact hi.destroy port
  · cases hs

theorem run_inv (hr : portSys.Run RemovesNoMember s) : PortsInv s :=
  hr.invariant (I := PortsInv) (fun _ h0 => by
    cases h0
    exact .init) fun _ _ _ hi hg hs => hi.step hg hs

/-- **Port membership.**  In runs that remove no member, the pointers and the lists of the groups agree, and
every call leaves `thread_lock` free. -/
theorem members_ok (hr : portSys.Run RemovesNoMember s) : MembersOk s := (run_inv hr).ok

end

/-- two ports in a group, one of them and then the group closed -/
theorem members_ok_closed : ∃ s, Machine.execIf RemovesNoMember portStep portInit
    [.create (some 1) true (some [97]) 0 true, .open (some 2) true (some [97]) 7 true,
      .open (some 3) true (some [97]) 8 true, .group (some 4) [2, 3] false true, .groupRemove (some 4) none,
      .close (some 2), .close (some 4)] = some s ∧ s.gportOf 3 = none ∧ MembersOk s := by
  have h0 : portSys.Run RemovesNoMember portInit := .init rfl
  obtain ⟨s, hs, hg⟩ := (Option.any_eq_true _ _).mp (show (Machine.execIf RemovesNoMember portStep portInit
    [.create (some 1) true (some [97]) 0 true, .open (some 2) true (some [97]) 7 true,
      .open (some 3) true (some [97]) 8 true, .group (some 4) [2, 3] false true, .groupRemove (some 4) none,
      .close (some 2), .close (some 4)]).any (fun s => s.gportOf 3 = none) by decide)
  exact ⟨s, hs, by simpa using hg, members_ok (h0.execIf _ hs)⟩

/-- **A member removed.**  Its `gport` stays, and a second removal returns with `thread_lock` held. -/
theorem members_ok_fails : ¬ ∀ s, portSys.Reach s → MembersOk s := by
  intro h
  have h0 : portSys.Reach portInit := .init rfl
  obtain ⟨s, hs, hl⟩ := (Option.any_eq_true _ _).mp (show (Machine.exec portStep portInit
    [.create (some 1) true (some [97]) 0 true, .open (some 2) true (some [97]) 7 true,
      .group (some 4) [2] false true, .groupRemove (some 4) (some 2), .groupRemove (some 4) (some 2)]).any
      (fun s => s.locked) by decide)
  rw [(h s (h0.exec _ hs)).unlocked] at hl
  cases hl

end Ports
end LkHv
