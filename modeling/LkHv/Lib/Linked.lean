import Mathlib.Data.List.Nodup

/-!
# Chains of nodes

Nodes of one link each: `f a` is the node after `a`, or `none` at the end.

* `Linked f o l`       the nodes from `o` on, one link after the other, are `l`;
* `Linked.congr`       links of nodes that are not on the chain do not matter;
* `Linked.splice`      a node put behind a node of the chain.
-/

universe u
variable {α : Type u}

/-- the nodes from `o` on, one link after the other, are `l` -/
def Linked (f : α → Option α) : Option α → List α → Prop
  | o, [] => o = none
  | o, a :: l => o = some a ∧ Linked f (f a) l

namespace Linked
variable {f g : α → Option α} {o : Option α} {a b : α} {l m : List α}

theorem congr (h : Linked f o l) (hfg : ∀ a ∈ l, g a = f a) : Linked g o l := by
  induction l generalizing o with
  | nil => exact h
  | cons a l ih =>
    refine ⟨h.1, ?_⟩
    rw [hfg a (.head l)]
    exact ih h.2 fun b hb => hfg b (.tail a hb)

theorem ne_nil (h : Linked f (some a) l) : l ≠ [] := by
  rintro rfl
  cases (h : some a = none)

theorem head_mem (h : Linked f (some a) l) : a ∈ l := by
  cases l with
  | nil => cases (h : some a = none)
  | cons b l =>
    obtain rfl : a = b := Option.some.inj h.1
    exact .head l

variable [DecidableEq α]

/-- `b` put behind the node `a` -/
def insertAfter (a b : α) : List α → List α
  | [] => []
  | c :: l => if c = a then c :: b :: l else c :: insertAfter a b l

theorem insertAfter_perm (b : α) (ha : a ∈ l) : (insertAfter a b l).Perm (b :: l) := by
  induction l with
  | nil => cases ha
  | cons c l ih =>
    rw [insertAfter]
    split
    · exact .swap b c l
    · rename_i hc
      have hl : a ∈ l := (List.mem_cons.mp ha).resolve_left fun e => hc e.symm
      exact ((ih hl).cons c).trans (.swap b c l)

/-- **A node put behind a node of the chain** takes its link and becomes its link. -/
theorem splice (h : Linked f o l) (hn : l.Nodup) (ha : a ∈ l) (hb : b ∉ l) (hg : ∀ c ∈ l, c ≠ a → g c = f c)
    (hga : g a = some b) (hgb : g b = f a) : Linked g o (insertAfter a b l) := by
  induction l generalizing o with
  | nil => cases ha
  | cons c l ih =>
    obtain ⟨hcl, hnl⟩ := List.nodup_cons.mp hn
    rw [insertAfter]
    split
    · rename_i e
      subst e
      refine ⟨h.1, hga, ?_⟩
      rw [hgb]
      exact h.2.congr fun d hd => hg d (.tail c hd) fun e => hcl (e ▸ hd)
    · rename_i hc
      have hl : a ∈ l := (List.mem_cons.mp ha).resolve_left fun e => hc e.symm
      refine ⟨h.1, ?_⟩
      rw [hg c (.head l) hc]
      exact ih h.2 hnl hl (fun hb' => hb (.tail c hb')) fun d hd => hg d (.tail c hd)

end Linked
