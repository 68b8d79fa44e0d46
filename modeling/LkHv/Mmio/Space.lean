import LkHv.Lib.Machine
import LkHv.Kernel.Err
import LkHv.Kernel.Word

/-!
# The MMIO space of a VM (`hv/hv_mmio.c`)

The registered ranges hang in a red-black tree.  Insertion and lookup descend it with their own comparisons
of ranges; of `rb_insert_color` only that it keeps the order of the nodes is used.

* `hvMmioRegister`, `mmioSpaceFind`   the source's;
* `mmioSys`            any registrations, with any rebalancing;
* `Apart`              the ranges lie in the order of the tree, none into the next;
* `mmio_registry`      in every run the ranges are disjoint, a range is accepted if and only if it overlaps
  none and there is memory for its record, and a lookup finds just the range around the access.
-/

namespace LkHv.Mmio
universe u
variable {δ : Type u}

/-- `struct mmio_item`, with its operations and their argument as `dev` -/
structure MmioItem (δ : Type u) where
  mmioStart : Nat
  mmioLen : Nat
  dev : δ

/-- the tree below a link -/
inductive RbTree (δ : Type u)
  | nil
  | node (left : RbTree δ) (item : MmioItem δ) (right : RbTree δ)

/-- `mmio_end` -/
def MmioItem.mmioEnd (x : MmioItem δ) : Nat := add64 x.mmioStart x.mmioLen

/-- the items in order -/
def RbTree.inorder : RbTree δ → List (MmioItem δ)
  | .nil => []
  | .node l x r => l.inorder ++ x :: r.inorder

/-- what `rb_insert_color` may do to a tree -/
structure Rebalance (δ : Type u) where
  run : RbTree δ → RbTree δ
  inorder : ∀ t, (run t).inorder = t.inorder

/-- the descent of `hv_mmio_register` and `rb_link_node`: `none` where it fails -/
def rbLink (new : MmioItem δ) (end' : Nat) : RbTree δ → Option (RbTree δ)
  | .nil => some (.node .nil new .nil)
  | .node l x r =>
    if end' ≤ x.mmioStart then (rbLink new end' l).map (.node · x r)
    else if new.mmioStart ≥ x.mmioEnd then (rbLink new end' r).map (.node l x ·)
    else none

/-- `hv_mmio_register`; `mem` says that `malloc` gave memory for the record -/
def hvMmioRegister (t : RbTree δ) (addr len : Nat) (dev : δ) (mem : Bool) (rbInsertColor : Rebalance δ) :
    RbTree δ × Int :=
  if mem then
    match rbLink ⟨addr, len, dev⟩ (add64 addr len) t with
    | some t' => (rbInsertColor.run t', 0)
    | none => (t, ERR_ALREADY_EXISTS)
  else (t, ERR_NO_MEMORY)

def mmioSpaceFind (t : RbTree δ) (addr len : Nat) : Option (MmioItem δ) :=
  match t with
  | .nil => none
  | .node l x r =>
    if add64 addr len ≤ x.mmioStart then mmioSpaceFind l addr len
    else if addr ≥ x.mmioEnd then mmioSpaceFind r addr len
    else if addr ≥ x.mmioStart ∧ add64 addr len ≤ x.mmioEnd then some x
    else none

/-! ## the machine -/

structure Registration (δ : Type u) where
  addr : Nat
  len : Nat
  dev : δ
  mem : Bool
  rbInsertColor : Rebalance δ

/-- a range that is nonempty and does not wrap -/
def Proper (addr len : Nat) : Prop := 0 < len ∧ addr + len < 2 ^ 64

def mmioStep (t : RbTree δ) (r : Registration δ) : RbTree δ × Int :=
  hvMmioRegister t r.addr r.len r.dev r.mem r.rbInsertColor

/-- any registrations of proper ranges, from an empty space -/
def mmioSys (δ : Type u) : Machine (RbTree δ) (Registration δ) where
  init t := t = .nil
  step t r t' := Proper r.addr r.len ∧ t' = (mmioStep t r).1

/-! ## ranges -/

/-- the bytes of two ranges meet -/
def Overlap (a n b m : Nat) : Prop := a < b + m ∧ b < a + n

/-- the range holds the access -/
def MmioItem.Holds (x : MmioItem δ) (addr len : Nat) : Prop :=
  x.mmioStart ≤ addr ∧ addr + len ≤ x.mmioStart + x.mmioLen

/-- proper ranges in order, each ending before the next one starts -/
structure Apart (xs : List (MmioItem δ)) : Prop where
  proper : ∀ x ∈ xs, Proper x.mmioStart x.mmioLen
  order : xs.Pairwise fun x y => x.mmioStart + x.mmioLen ≤ y.mmioStart

theorem MmioItem.mmioEnd_eq {x : MmioItem δ} (h : Proper x.mmioStart x.mmioLen) :
    x.mmioEnd = x.mmioStart + x.mmioLen := add64_of_lt h.2

theorem apart_nil : Apart ([] : List (MmioItem δ)) := ⟨fun _ h => absurd h List.not_mem_nil, .nil⟩

/-- what is to the left of a node, and to its right -/
theorem apart_node {l r : List (MmioItem δ)} {x : MmioItem δ} :
    Apart (l ++ x :: r) ↔ Apart l ∧ Apart r ∧ Proper x.mmioStart x.mmioLen ∧
      (∀ y ∈ l, y.mmioStart + y.mmioLen ≤ x.mmioStart) ∧ (∀ z ∈ r, x.mmioStart + x.mmioLen ≤ z.mmioStart) := by
  constructor
  · rintro ⟨h1, h2⟩
    obtain ⟨g1, g2, g3⟩ := List.pairwise_append.mp h2
    obtain ⟨g4, g5⟩ := List.pairwise_cons.mp g2
    refine ⟨⟨fun y hy => h1 y (List.mem_append_left _ hy), g1⟩, ⟨fun z hz => h1 z ?_, g5⟩, h1 x ?_, ?_, g4⟩
    · exact List.mem_append_right _ (List.mem_cons_of_mem _ hz)
    · exact List.mem_append_right _ List.mem_cons_self
    · exact fun y hy => g3 y hy x List.mem_cons_self
  · rintro ⟨⟨h1, h2⟩, ⟨h3, h4⟩, h5, h6, h7⟩
    have hx := h5.1
    refine ⟨?_, List.pairwise_append.mpr ⟨h2, List.pairwise_cons.mpr ⟨h7, h4⟩, ?_⟩⟩
    · intro y hy
      rcases List.mem_append.mp hy with hy | hy
      · exact h1 y hy
      · rcases List.mem_cons.mp hy with rfl | hy
        · exact h5
        · exact h3 y hy
    · intro y hy z hz
      have hyx := h6 y hy
      rcases List.mem_cons.mp hz with rfl | hz
      · exact hyx
      · have hxz := h7 z hz
        omega

/-! ## registration -/

/-- the new item between those that end before it and those that start behind it -/
def Placed (new : MmioItem δ) (xs xs' : List (MmioItem δ)) : Prop :=
  ∃ l r, xs = l ++ r ∧ xs' = l ++ new :: r ∧ (∀ y ∈ l, y.mmioStart + y.mmioLen ≤ new.mmioStart) ∧
    ∀ z ∈ r, new.mmioStart + new.mmioLen ≤ z.mmioStart

theorem rbLink_placed {new : MmioItem δ} (hn : Proper new.mmioStart new.mmioLen) {t : RbTree δ}
    (h : Apart t.inorder) {t' : RbTree δ} (hs : rbLink new new.mmioEnd t = some t') :
    Placed new t.inorder t'.inorder := by
  rw [MmioItem.mmioEnd_eq hn] at hs
  induction t generalizing t' with
  | nil =>
    cases hs
    exact ⟨[], [], rfl, rfl, fun _ hy => absurd hy List.not_mem_nil, fun _ hz => absurd hz List.not_mem_nil⟩
  | node l x r ihl ihr =>
    obtain ⟨hl, hr, hx, hlx, hxr⟩ := apart_node.mp h
    have hxl := hx.1
    rw [rbLink, MmioItem.mmioEnd_eq hx] at hs
    split at hs
    · rename_i hlt
      obtain ⟨l', hl', rfl⟩ := Option.map_eq_some_iff.mp hs
      obtain ⟨a, b, h1, h2, h3, h4⟩ := ihl hl hl'
      refine ⟨a, b ++ x :: r.inorder, ?_, ?_, h3, ?_⟩
      · rw [RbTree.inorder, h1, List.append_assoc]
      · rw [RbTree.inorder, h2, List.append_assoc, List.cons_append]
      · intro z hz
        rcases List.mem_append.mp hz with hz | hz
        · exact h4 z hz
        · rcases List.mem_cons.mp hz with rfl | hz
          · exact hlt
          · have := hxr z hz
            omega
    · split at hs
      · rename_i hge
        obtain ⟨r', hr', rfl⟩ := Option.map_eq_some_iff.mp hs
        obtain ⟨a, b, h1, h2, h3, h4⟩ := ihr hr hr'
        refine ⟨l.inorder ++ x :: a, b, ?_, ?_, ?_, h4⟩
        · rw [RbTree.inorder, h1, List.append_assoc, List.cons_append]
        · rw [RbTree.inorder, h2, List.append_assoc, List.cons_append]
        · intro y hy
          rcases List.mem_append.mp hy with hy | hy
          · have := hlx y hy
            omega
          · rcases List.mem_cons.mp hy with rfl | hy
            · exact hge
            · exact h3 y hy
      · cases hs

/-- where the descent fails it has met a range that overlaps the new one -/
theorem rbLink_none {new : MmioItem δ} (hn : Proper new.mmioStart new.mmioLen) {t : RbTree δ}
    (h : Apart t.inorder) (hs : rbLink new new.mmioEnd t = none) :
    ∃ x ∈ t.inorder, Overlap new.mmioStart new.mmioLen x.mmioStart x.mmioLen := by
  rw [MmioItem.mmioEnd_eq hn] at hs
  induction t with
  | nil => cases hs
  | node l x r ihl ihr =>
    obtain ⟨hl, hr, hx, hlx, hxr⟩ := apart_node.mp h
    rw [rbLink, MmioItem.mmioEnd_eq hx] at hs
    split at hs
    · obtain ⟨y, hy, ho⟩ := ihl hl (Option.map_eq_none_iff.mp hs)
      exact ⟨y, List.mem_append_left _ hy, ho⟩
    · rename_i h1
      split at hs
      · obtain ⟨y, hy, ho⟩ := ihr hr (Option.map_eq_none_iff.mp hs)
        exact ⟨y, List.mem_append_right _ (List.mem_cons_of_mem _ hy), ho⟩
      · rename_i h2
        refine ⟨x, List.mem_append_right _ List.mem_cons_self, ?_⟩
        unfold Overlap
        omega

theorem Placed.apart {new : MmioItem δ} {xs xs' : List (MmioItem δ)} (hp : Placed new xs xs')
    (hn : Proper new.mmioStart new.mmioLen) (h : Apart xs) : Apart xs' := by
  obtain ⟨l, r, rfl, rfl, h1, h2⟩ := hp
  obtain ⟨g1, g2, -⟩ := List.pairwise_append.mp h.order
  have hl : Apart l := ⟨fun y hy => h.proper y (List.mem_append_left _ hy), g1⟩
  have hr : Apart r := ⟨fun z hz => h.proper z (List.mem_append_right _ hz), g2⟩
  exact apart_node.mpr ⟨hl, hr, hn, h1, h2⟩

theorem Placed.free {new : MmioItem δ} {xs xs' : List (MmioItem δ)} (hp : Placed new xs xs') :
    ∀ x ∈ xs, ¬Overlap new.mmioStart new.mmioLen x.mmioStart x.mmioLen := by
  obtain ⟨l, r, rfl, rfl, h1, h2⟩ := hp
  rintro x hx ⟨h3, h4⟩
  rcases List.mem_append.mp hx with hx | hx
  · have := h1 x hx
    omega
  · have := h2 x hx
    omega

/-- **Registration**, on a tree of ranges apart -/
theorem hvMmioRegister_spec {t : RbTree δ} (h : Apart t.inorder) {addr len : Nat} (hn : Proper addr len) (dev : δ)
    (mem : Bool) (rb : Rebalance δ) : ((hvMmioRegister t addr len dev mem rb).2 = 0 ↔
        mem = true ∧ ∀ x ∈ t.inorder, ¬Overlap addr len x.mmioStart x.mmioLen) ∧
      ((hvMmioRegister t addr len dev mem rb).2 = 0 →
        Placed ⟨addr, len, dev⟩ t.inorder (hvMmioRegister t addr len dev mem rb).1.inorder) ∧
      ((hvMmioRegister t addr len dev mem rb).2 ≠ 0 → (hvMmioRegister t addr len dev mem rb).1 = t) := by
  unfold hvMmioRegister
  cases mem with
  | false => simp [ERR_NO_MEMORY]
  | true =>
    rw [if_pos rfl]
    cases hs : rbLink ⟨addr, len, dev⟩ (add64 addr len) t with
    | some t' =>
      have hp := @rbLink_placed _ ⟨addr, len, dev⟩ hn _ h _ hs
      refine ⟨⟨fun _ => ⟨rfl, hp.free⟩, fun _ => rfl⟩, fun _ => ?_, fun h0 => absurd rfl h0⟩
      show Placed _ _ (rb.run t').inorder
      rw [rb.inorder]
      exact hp
    | none =>
      obtain ⟨x, hx, ho⟩ := @rbLink_none _ ⟨addr, len, dev⟩ hn _ h hs
      have he : ¬ERR_ALREADY_EXISTS = 0 := by decide
      refine ⟨⟨fun h0 => absurd h0 he, fun h0 => absurd ho (h0.2 x hx)⟩, fun h0 => absurd h0 he, fun _ => rfl⟩

/-! ## lookup -/

/-- **Lookup** finds the range around the access. -/
theorem mmioSpaceFind_iff {addr len : Nat} (hn : Proper addr len) {t : RbTree δ} (h : Apart t.inorder)
    (x : MmioItem δ) : mmioSpaceFind t addr len = some x ↔ x ∈ t.inorder ∧ x.Holds addr len := by
  have hlen := hn.1
  induction t with
  | nil =>
    constructor
    · intro h0
      cases h0
    · rintro ⟨h0, -⟩
      exact absurd h0 List.not_mem_nil
  | node l y r ihl ihr =>
    obtain ⟨hl, hr, hy, hly, hyr⟩ := apart_node.mp h
    have hylen := hy.1
    rw [mmioSpaceFind, RbTree.inorder, MmioItem.mmioEnd_eq hy, add64_of_lt hn.2, List.mem_append, List.mem_cons]
    unfold MmioItem.Holds at ihl ihr ⊢
    split
    · rename_i hlt
      refine (ihl hl).trans ?_
      constructor
      · rintro ⟨h1, h2⟩
        exact ⟨.inl h1, h2⟩
      · rintro ⟨h1 | rfl | h1, h2⟩
        · exact ⟨h1, h2⟩
        · omega
        · have := hyr x h1
          omega
    · split
      · rename_i hge
        refine (ihr hr).trans ?_
        constructor
        · rintro ⟨h1, h2⟩
          exact ⟨.inr (.inr h1), h2⟩
        · rintro ⟨h1 | rfl | h1, h2⟩
          · have := hly x h1
            omega
          · omega
          · exact ⟨h1, h2⟩
      · split
        · rename_i hin
          constructor
          · intro h0
            cases h0
            exact ⟨.inr (.inl rfl), hin⟩
          · rintro ⟨h1 | rfl | h1, h2⟩
            · have := hly x h1
              omega
            · rfl
            · have := hyr x h1
              omega
        · -- the access straddles an end of this range
          rename_i hout
          constructor
          · intro h0
            cases h0
          · rintro ⟨h1 | rfl | h1, h2⟩
            · have := hly x h1
              omega
            · exact absurd h2 hout
            · have := hyr x h1
              omega

/-! ## runs -/

theorem reach_apart {t : RbTree δ} (h : (mmioSys δ).Reach t) : Apart t.inorder := by
  refine h.invariant (I := fun t => Apart t.inorder) ?_ ?_
  · rintro t rfl
    exact apart_nil
  · rintro t r t' hi - ⟨hn, rfl⟩
    obtain ⟨-, h2, h3⟩ := hvMmioRegister_spec hi hn r.dev r.mem r.rbInsertColor
    unfold mmioStep
    by_cases h0 : (hvMmioRegister t r.addr r.len r.dev r.mem r.rbInsertColor).2 = 0
    · exact (h2 h0).apart hn hi
    · rw [h3 h0]
      exact hi

/-- **The registry**, after any registrations of proper ranges: the ranges are disjoint; a proper range is
accepted if and only if there is memory for its record and it overlaps none of them, is then one more of them,
and leaves the tree as it is otherwise; a lookup finds the range that holds the access, and nothing if there
is none. -/
theorem mmio_registry {t : RbTree δ} (h : (mmioSys δ).Reach t) :
    (t.inorder.Pairwise fun x y => ¬Overlap x.mmioStart x.mmioLen y.mmioStart y.mmioLen) ∧
      (∀ addr len dev mem rb, Proper addr len →
        ((hvMmioRegister t addr len dev mem rb).2 = 0 ↔
          mem = true ∧ ∀ x ∈ t.inorder, ¬Overlap addr len x.mmioStart x.mmioLen) ∧
        ((hvMmioRegister t addr len dev mem rb).2 = 0 →
          (hvMmioRegister t addr len dev mem rb).1.inorder.Perm (⟨addr, len, dev⟩ :: t.inorder)) ∧
        ((hvMmioRegister t addr len dev mem rb).2 ≠ 0 → (hvMmioRegister t addr len dev mem rb).1 = t)) ∧
      ∀ addr len x, Proper addr len →
        (mmioSpaceFind t addr len = some x ↔ x ∈ t.inorder ∧ x.Holds addr len) := by
  have hi := reach_apart h
  refine ⟨hi.order.imp ?_, ?_, fun addr len x hn => mmioSpaceFind_iff hn hi x⟩
  · rintro x y hxy ⟨h1, h2⟩
    omega
  · intro addr len dev mem rb hn
    obtain ⟨h1, h2, h3⟩ := hvMmioRegister_spec hi hn dev mem rb
    refine ⟨h1, fun h0 => ?_, h3⟩
    obtain ⟨l, r, h4, h5, -⟩ := h2 h0
    rw [h5, h4]
    exact List.perm_middle

/-- two ranges that touch, as those of a distributor and a redistributor -/
def twoRanges : RbTree Unit := .node .nil ⟨0x8000000, 0x20000, ()⟩ (.node .nil ⟨0x8020000, 0x20000, ()⟩ .nil)

theorem twoRanges_reach : (mmioSys Unit).Reach twoRanges := by
  have h0 : (mmioSys Unit).Reach .nil := .init rfl
  have h1 : (mmioSys Unit).Reach (.node .nil ⟨0x8000000, 0x20000, ()⟩ .nil) :=
    h0.step (a := ⟨0x8000000, 0x20000, (), true, ⟨id, fun _ => rfl⟩⟩) trivial ⟨by unfold Proper; decide, rfl⟩
  exact h1.step (a := ⟨0x8020000, 0x20000, (), true, ⟨id, fun _ => rfl⟩⟩) trivial ⟨by unfold Proper; decide, rfl⟩

/-- an access to the second of them -/
theorem mmio_registry_two : mmioSpaceFind twoRanges 0x8020008 8 = some ⟨0x8020000, 0x20000, ()⟩ := by
  have hn : Proper 0x8020008 8 := by unfold Proper; decide
  apply ((mmio_registry twoRanges_reach).2.2 _ _ _ hn).mpr
  refine ⟨.tail _ (.head _), ?_⟩
  unfold MmioItem.Holds
  decide

/-- Memory refused: the range is rejected, though nothing is registered. -/
theorem mmio_registry_refused :
    ¬((hvMmioRegister (.nil : RbTree Unit) 0x8000000 0x20000 () false ⟨id, fun _ => rfl⟩).2 = 0 ↔
      ∀ x ∈ (RbTree.nil : RbTree Unit).inorder, ¬Overlap 0x8000000 0x20000 x.mmioStart x.mmioLen) := by
  intro h
  have h0 := h.mpr fun x hx => absurd hx List.not_mem_nil
  revert h0
  decide

end LkHv.Mmio
