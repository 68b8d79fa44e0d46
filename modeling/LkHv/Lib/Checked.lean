import Mathlib.Data.List.Basic

/-!
# Computations that may fault and may leave early

A computation ends with a result or leaves with a code, or it faults.  A list of stations tells its way: what each
step needs in order not to fault, and when it goes on to the next.

* `NoFault`, `Returns`   what a computation does;
* `orReturn`, `returnIf`, `withCode`, `anyway`   the ways to leave;
* `Safe`, `Passed`       no station that is come to faults; all of them are passed;
* `Walks`                the computation goes by the stations;
* `Walks.cons`, `Walks.bind`, `Walks.congr`   the rules;
* `Ends`                 the computation ends, with a result of one kind or a code of another.
-/

/-- faults in `φ`, codes in `ε` -/
abbrev Checked (φ ε α : Type) := ExceptT ε (Except φ) α

namespace Checked
variable {φ ε α β : Type}

def fault (f : φ) : Checked φ ε α := ExceptT.mk (.error f)

/-- leaves where there is nothing -/
def orReturn : Option α → ε → Checked φ ε α
  | some a, _ => pure a
  | none, e => throw e

def returnIf (c : Prop) [Decidable c] (e : ε) : Checked φ ε PUnit := if c then throw e else pure ⟨⟩

/-- leaves with `e`, whatever the code was -/
def withCode (x : Checked φ ε α) (e : ε) : Checked φ ε α := ExceptT.mk (x.run.map fun r => r.mapError fun _ => e)

/-- goes on behind it, also where it left -/
def anyway (x : Checked φ ε α) : Checked φ ε PUnit := ExceptT.mk (x.run.map fun _ => .ok ⟨⟩)

def NoFault (x : Checked φ ε α) : Prop := ∃ r, x.run = .ok r

def Returns (x : Checked φ ε α) (a : α) : Prop := x.run = .ok (.ok a)

/-- a step: what it needs in order not to fault, and when it goes on -/
structure Station where
  fits : Prop
  passes : Prop

/-- nothing is read, and it goes on if -/
def Station.check (c : Prop) : Station := ⟨True, c⟩

/-- no station that is come to faults -/
def Safe : List Station → Prop
  | [] => True
  | s :: l => s.fits ∧ (s.passes → Safe l)

/-- all stations are passed -/
def Passed (l : List Station) : Prop := ∀ s ∈ l, s.fits ∧ s.passes

/-- **The computation goes by the stations**, and returns behind the last. -/
structure Walks (x : Checked φ ε α) (l : List Station) : Prop where
  safe : NoFault x ↔ Safe l
  passed : (∃ a, Returns x a) ↔ Passed l

/-! ## what the parts do -/

section
variable {x : Checked φ ε α} {f : α → Checked φ ε β} {a a' : α} {b : β} {e : ε}

theorem Returns.noFault (h : Returns x a) : NoFault x := ⟨_, h⟩

theorem noFault_bind : NoFault (x >>= f) ↔ NoFault x ∧ ∀ a, Returns x a → NoFault (f a) := by
  unfold NoFault Returns
  rw [ExceptT.run_bind]
  rcases x.run with e | e | a
  · constructor
    · rintro ⟨r, h⟩
      cases h
    · rintro ⟨⟨r, h⟩, -⟩
      cases h
  · exact ⟨fun _ => ⟨⟨_, rfl⟩, fun a h => nomatch h⟩, fun _ => ⟨_, rfl⟩⟩
  · refine ⟨fun h => ⟨⟨_, rfl⟩, fun a' ha => ?_⟩, fun h => h.2 a rfl⟩
    cases ha
    exact h

theorem returns_bind : Returns (x >>= f) b ↔ ∃ a, Returns x a ∧ Returns (f a) b := by
  unfold Returns
  rw [ExceptT.run_bind]
  rcases x.run with e | e | a
  · exact ⟨fun h => (nomatch h), fun ⟨_, h, _⟩ => (nomatch h)⟩
  · exact ⟨fun h => (nomatch h), fun ⟨_, h, _⟩ => (nomatch h)⟩
  · refine ⟨fun h => ⟨a, rfl, h⟩, ?_⟩
    rintro ⟨a', ha, h⟩
    cases ha
    exact h

theorem returns_pure : Returns (pure a : Checked φ ε α) a' ↔ a = a' := by
  unfold Returns
  rw [ExceptT.run_pure]
  constructor
  · intro h
    cases h
    rfl
  · rintro rfl
    rfl

theorem not_returns_throw : ¬ Returns (throw e : Checked φ ε α) a := fun h => nomatch h

theorem not_noFault_fault {p : φ} : ¬ NoFault (fault p : Checked φ ε α) := fun ⟨_, h⟩ => nomatch h

theorem returns_orReturn {o : Option α} : Returns (orReturn o e : Checked φ ε α) a ↔ o = some a := by
  cases o with
  | none => exact ⟨fun h => absurd h not_returns_throw, nofun⟩
  | some a' => exact returns_pure.trans ⟨congrArg some, Option.some.inj⟩

theorem returns_returnIf {c : Prop} [Decidable c] {r : PUnit} :
    Returns (returnIf c e : Checked φ ε PUnit) r ↔ ¬ c := by
  unfold returnIf
  split
  · rename_i hc
    exact ⟨fun h => absurd h not_returns_throw, fun h => absurd hc h⟩
  · rename_i hc
    exact ⟨fun _ => hc, fun _ => rfl⟩

theorem returns_withCode : Returns (withCode x e) a ↔ Returns x a := by
  unfold Returns withCode
  rw [ExceptT.run_mk]
  rcases x.run with p | p | a'
  · exact ⟨fun h => (nomatch h), fun h => (nomatch h)⟩
  · exact ⟨fun h => (nomatch h), fun h => (nomatch h)⟩
  · constructor
    · intro h
      cases h
      rfl
    · intro h
      cases h
      rfl

theorem noFault_withCode : NoFault (withCode x e) ↔ NoFault x := by
  unfold NoFault withCode
  rw [ExceptT.run_mk]
  rcases x.run with p | p | a'
  · exact ⟨fun ⟨_, h⟩ => (nomatch h), fun ⟨_, h⟩ => (nomatch h)⟩
  · exact ⟨fun _ => ⟨_, rfl⟩, fun _ => ⟨_, rfl⟩⟩
  · exact ⟨fun _ => ⟨_, rfl⟩, fun _ => ⟨_, rfl⟩⟩

theorem noFault_anyway : NoFault (anyway x) ↔ NoFault x := by
  unfold NoFault anyway
  rw [ExceptT.run_mk]
  rcases x.run with p | r
  · exact ⟨fun ⟨_, h⟩ => (nomatch h), fun ⟨_, h⟩ => (nomatch h)⟩
  · exact ⟨fun _ => ⟨_, rfl⟩, fun _ => ⟨_, rfl⟩⟩

theorem returns_anyway {r : PUnit} : Returns (anyway x) r ↔ NoFault x := by
  unfold Returns NoFault anyway
  rw [ExceptT.run_mk]
  rcases x.run with p | r
  · exact ⟨fun h => (nomatch h), fun ⟨_, h⟩ => (nomatch h)⟩
  · exact ⟨fun _ => ⟨_, rfl⟩, fun _ => rfl⟩

end

/-! ## the rules -/

section
variable {x : Checked φ ε α} {f : α → Checked φ ε β} {s t : Station} {l l' : List Station}

theorem passed_cons : Passed (s :: l) ↔ (s.fits ∧ s.passes) ∧ Passed l := List.forall_mem_cons

theorem passed_append : Passed (l ++ l') ↔ Passed l ∧ Passed l' := List.forall_mem_append

theorem safe_append : Safe (l ++ l') ↔ Safe l ∧ (Passed l → Safe l') := by
  induction l with
  | nil => exact ⟨fun h => ⟨trivial, fun _ => h⟩, fun h => h.2 nofun⟩
  | cons s l ih =>
    rw [List.cons_append, passed_cons]
    constructor
    · rintro ⟨h1, h2⟩
      exact ⟨⟨h1, fun hp => (ih.mp (h2 hp)).1⟩, fun hp => (ih.mp (h2 hp.1.2)).2 hp.2⟩
    · rintro ⟨⟨h1, h2⟩, h3⟩
      exact ⟨h1, fun hp => ih.mpr ⟨h2 hp, fun hl => h3 ⟨⟨h1, hp⟩, hl⟩⟩⟩

/-- the same stations in other words -/
theorem Walks.congr (h : Walks x l) (hs : Safe l ↔ Safe l') (hp : Passed l ↔ Passed l') : Walks x l' :=
  ⟨h.safe.trans hs, h.passed.trans hp⟩

/-- **One computation after the other** -/
theorem Walks.bind (h : Walks x l) (hf : ∀ a, Returns x a → Walks (f a) l') : Walks (x >>= f) (l ++ l') := by
  constructor
  · rw [noFault_bind, h.safe, safe_append]
    refine and_congr_right fun _ => ?_
    constructor
    · intro hall hp
      obtain ⟨a, ha⟩ := h.passed.mpr hp
      exact (hf a ha).safe.mp (hall a ha)
    · exact fun hp a ha => (hf a ha).safe.mpr (hp (h.passed.mp ⟨a, ha⟩))
  · rw [passed_append, ← h.passed]
    constructor
    · rintro ⟨b, hb⟩
      obtain ⟨a, ha, hb⟩ := returns_bind.mp hb
      exact ⟨⟨a, ha⟩, (hf a ha).passed.mp ⟨b, hb⟩⟩
    · rintro ⟨⟨a, ha⟩, hp⟩
      obtain ⟨b, hb⟩ := (hf a ha).passed.mpr hp
      exact ⟨b, returns_bind.mpr ⟨a, ha, hb⟩⟩

/-- one station more -/
theorem Walks.cons (h : Walks x [s]) (hf : ∀ a, Returns x a → Walks (f a) l) : Walks (x >>= f) (s :: l) := h.bind hf

theorem Walks.pure (a : α) : Walks (pure a : Checked φ ε α) [] :=
  ⟨⟨fun _ => trivial, fun _ => ⟨_, rfl⟩⟩, ⟨fun _ => nofun, fun _ => ⟨a, rfl⟩⟩⟩

theorem walks_one (h1 : NoFault x ↔ s.fits) (h2 : (∃ a, Returns x a) ↔ s.fits ∧ s.passes) : Walks x [s] :=
  ⟨h1.trans ⟨fun h => ⟨h, fun _ => trivial⟩, fun h => h.1⟩, by rw [h2, passed_cons]; simp [Passed]⟩

theorem walks_orReturn (o : Option α) (e : ε) : Walks (orReturn o e : Checked φ ε α) [.check (o.isSome = true)] := by
  refine walks_one ⟨fun _ => trivial, fun _ => ?_⟩ ?_
  · cases o with
    | none => exact ⟨_, rfl⟩
    | some a => exact ⟨_, rfl⟩
  · simp only [returns_orReturn, ← Option.isSome_iff_exists, Station.check, true_and]

theorem walks_returnIf (c : Prop) [Decidable c] (e : ε) :
    Walks (returnIf c e : Checked φ ε PUnit) [.check (¬ c)] := by
  refine walks_one ⟨fun _ => trivial, fun _ => ?_⟩ ?_
  · unfold returnIf
    split
    · exact ⟨_, rfl⟩
    · exact ⟨_, rfl⟩
  · simp only [returns_returnIf, Station.check, true_and]
    exact ⟨fun ⟨_, h⟩ => h, fun h => ⟨⟨⟩, h⟩⟩

theorem walks_returnIf_iff {c p : Prop} [Decidable c] (h : ¬ c ↔ p) (e : ε) :
    Walks (returnIf c e : Checked φ ε PUnit) [.check p] := by
  rw [← propext h]
  exact walks_returnIf c e

/-- a step that goes on if it does not fault -/
theorem walks_fits {p : Prop} (h1 : NoFault x ↔ p) (h2 : p → ∃ a, Returns x a) : Walks x [⟨p, True⟩] :=
  walks_one h1 ⟨fun ⟨_, ha⟩ => ⟨h1.mp ha.noFault, trivial⟩, fun h => h2 h.1⟩

/-- two such steps -/
theorem Walks.merge {p q r : Prop} (h : Walks x [⟨p, True⟩, ⟨q, True⟩]) (hr : p ∧ q ↔ r) : Walks x [⟨r, True⟩] := by
  refine h.congr ?_ ?_
  · simp only [Safe, true_imp_iff, and_true]
    exact hr
  · simp only [passed_cons, and_true, ← hr, and_assoc]

theorem Walks.map (h : Walks x l) (g : α → β) : Walks (x >>= fun a => Pure.pure (g a)) l := by
  have hb := h.bind fun a _ => Walks.pure (φ := φ) (ε := ε) (g a)
  rwa [List.append_nil] at hb

theorem Walks.withCode (h : Walks x l) (e : ε) : Walks (withCode x e) l :=
  ⟨noFault_withCode.trans h.safe, by simp only [returns_withCode, h.passed]⟩

/-- what is gone on behind need not be passed -/
theorem Walks.anyway (h : Walks x l) : Walks (anyway x) [⟨Safe l, True⟩] :=
  walks_one (noFault_anyway.trans h.safe) (by
    simp only [returns_anyway, h.safe, and_true]
    exact ⟨fun ⟨_, hs⟩ => hs, fun hs => ⟨⟨⟩, hs⟩⟩)

end

/-! ## results and codes -/

/-- the computation ends with a result in `post` or a code in `bad` -/
def Ends (x : Checked φ ε α) (post : α → Prop) (bad : ε → Prop) : Prop :=
  (∃ a, Returns x a ∧ post a) ∨ ∃ e, x.run = .ok (.error e) ∧ bad e

section
variable {x : Checked φ ε α} {f : α → Checked φ ε β} {p p' : α → Prop} {q : β → Prop} {bad bad' : ε → Prop}

theorem ends_pure {a : α} (h : p a) : Ends (pure a : Checked φ ε α) p bad := .inl ⟨a, rfl, h⟩

theorem ends_throw {e : ε} (h : bad e) : Ends (throw e : Checked φ ε α) p bad := .inr ⟨e, rfl, h⟩

theorem Ends.imp (h : Ends x p bad) (hp : ∀ a, p a → p' a) (hb : ∀ e, bad e → bad' e) : Ends x p' bad' := by
  rcases h with ⟨a, h, ha⟩ | ⟨e, h, he⟩
  · exact .inl ⟨a, h, hp a ha⟩
  · exact .inr ⟨e, h, hb e he⟩

/-- **One after the other** -/
theorem Ends.bind (h : Ends x p bad) (hf : ∀ a, p a → Ends (f a) q bad) : Ends (x >>= f) q bad := by
  unfold Ends Returns at *
  rw [ExceptT.run_bind]
  rcases h with ⟨a, h, ha⟩ | ⟨e, h, he⟩
  · rw [h]
    exact hf a ha
  · rw [h]
    exact .inr ⟨e, rfl, he⟩

theorem ends_returnIf {c : Prop} [Decidable c] {e : ε} (h : c → bad e) :
    Ends (returnIf c e : Checked φ ε PUnit) (fun _ => ¬ c) bad := by
  unfold returnIf
  split
  · rename_i hc
    exact ends_throw (h hc)
  · rename_i hc
    exact ends_pure hc

end

end Checked
