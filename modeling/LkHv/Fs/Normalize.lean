import LkHv.Fs.PathForm

/-!
# `fs_normalize_path` in the caller's buffer (`lib/fs/fs.c`)

The source's nine states, one pass of its loop at a time, in the buffer that it reads and writes.  An access outside
the buffer is `none`.  Positions are natural numbers.

* `Norm.step`, `Norm.finish`  a pass of the loop, and what follows it;
* `normSys`                   the passes over one buffer;
* `Lay`, `At`                 the buffer: what was written, what is read and free, and what is left to read;
* `Running.step`              a pass keeps that, and comes closer to the end;
* `Normalizes`                a path is rewritten to its normal form, behind the read position, once and for all;
* `normalizes_iff`            exactly if it is relative or does not climb;
* `normalizes_fails`          "/../foo" loses its slash.
-/

namespace LkHv.Fs

def NUL : Char := Char.ofNat 0

/-- the string in a buffer -/
def cstr (buf : List Char) : List Char := buf.takeWhile (· ≠ NUL)

/-! ## the source -/

/-- `state` -/
inductive PathState
  | initial
  | fieldStart
  | inField
  | sep
  | seenSep
  | dot
  | seenDot
  | dotdot
  | seenDotdot

/-- the locals of `fs_normalize_path`, and the buffer -/
structure Norm where
  path : List Char
  state : PathState
  pos : Nat
  outpos : Nat
  done : Bool

namespace Norm

def start (path : List Char) : Norm := ⟨path, .initial, 0, 0, false⟩

/-- `path[outpos++] = c` -/
def emit (n : Norm) (c : Char) : Option Norm :=
  if n.outpos < n.path.length then some { n with path := n.path.set n.outpos c, outpos := n.outpos + 1 } else none

/-- the loop that walks backwards to the next field boundary -/
def walkBack (path : List Char) : Nat → Option Nat
  | 0 => some 0
  | outpos + 1 =>
    match path[outpos]? with
    | none => none
    | some c => if c = '/' then some (outpos + 1) else walkBack path outpos

/-- a field that was emitted is consumed -/
def consume (n : Norm) : Option Norm :=
  if 0 < n.outpos then (walkBack n.path (n.outpos - 1)).map fun outpos => { n with outpos := outpos } else some n

/-- the switch, on `c = path[pos]` -/
def switch (n : Norm) (c : Char) : Option Norm :=
  match n.state with
  | .initial =>
    if c = '/' then some { n with state := .sep }
    else if c = '.' then some { n with state := .dot }
    else some { n with state := .fieldStart }
  | .fieldStart =>
    if c = '.' then some { n with state := .dot }
    else if c = NUL then some { n with done := true }
    else some { n with state := .inField }
  | .inField =>
    if c = '/' then some { n with state := .sep }
    else if c = NUL then some { n with done := true }
    else (n.emit c).map fun n => { n with pos := n.pos + 1 }
  | .sep => (emit { n with pos := n.pos + 1 } '/').map fun n => { n with state := .seenSep }
  | .seenSep =>
    if c = '/' then some { n with pos := n.pos + 1 }
    else if c = NUL then some { n with done := true }
    else some { n with state := .fieldStart }
  | .dot => some { n with pos := n.pos + 1, state := .seenDot }
  | .seenDot =>
    if c = '.' then some { n with state := .dotdot }
    else if c = '/' then some { n with pos := n.pos + 1, state := .seenSep }
    else if c = NUL then some { n with done := true }
    else (n.emit '.').map fun n => { n with state := .inField }
  | .dotdot => some { n with pos := n.pos + 1, state := .seenDotdot }
  | .seenDotdot =>
    if c = '/' ∨ c = NUL then
      n.consume.map fun n => { n with pos := n.pos + 1, state := .seenSep, done := c = NUL }
    else ((n.emit '.').bind fun n => n.emit '.').map fun n => { n with state := .inField }

/-- one pass of the loop -/
def step (n : Norm) : Option Norm := n.path[n.pos]?.bind n.switch

/-- what follows the loop: the last slash and the `NUL` -/
def finish (n : Norm) : Option (List Char) :=
  let outpos := if 1 < n.outpos ∧ n.path[n.outpos - 1]? = some '/' then n.outpos - 1 else n.outpos
  if outpos < n.path.length then some (n.path.set outpos NUL) else none

end Norm

/-- the passes of the loop over a buffer -/
def normSys (buf : List Char) : Machine Norm Unit :=
  .ofFun (fun n => n = .start buf) fun n _ => if n.done then none else n.step

/-- `fs_normalize_path` returns, and leaves `buf'` -/
def Leaves (buf buf' : List Char) : Prop := ∃ n, (normSys buf).Reach n ∧ n.done = true ∧ n.finish = some buf'

/-! ## the buffer -/

/-- the buffer holds `out`, then `gap`, which was read and is free, then `cs`, which is left to read -/
structure Lay (p tail path : List Char) (pos outpos : Nat) (out gap cs : List Char) : Prop where
  bytes : path = out.reverse ++ (gap ++ (cs ++ NUL :: tail))
  outAt : outpos = out.length
  readAt : pos = out.length + gap.length
  left : p.drop pos = cs
  le : pos ≤ p.length
  clean : NUL ∉ out
  text : NUL ∉ cs

section
variable {p tail path out gap cs : List Char} {pos outpos : Nat} {c : Char}

theorem Lay.read (h : Lay p tail path pos outpos out gap cs) : path[pos]? = (cs ++ NUL :: tail)[0]? := by
  rw [h.bytes, h.readAt, List.getElem?_append_right (by simp), List.getElem?_append_right (by simp)]
  simp

theorem Lay.outpos_lt (h : Lay p tail path pos outpos out gap cs) : outpos < path.length := by
  rw [h.bytes, h.outAt]
  simp

theorem Lay.ne_nul (h : Lay p tail path pos outpos out gap (c :: cs)) : c ≠ NUL := by
  rintro rfl
  exact h.text (.head _)

/-- a character is read -/
theorem Lay.eat (h : Lay p tail path pos outpos out gap (c :: cs)) :
    Lay p tail path (pos + 1) outpos out (gap ++ [c]) cs where
  bytes := by
    rw [h.bytes]
    simp
  outAt := h.outAt
  readAt := by
    rw [h.readAt, List.length_append, List.length_singleton]
    lia
  left := by
    rw [← List.drop_drop, h.left]
    rfl
  le := by
    have hlen := congrArg List.length h.left
    rw [List.length_drop, List.length_cons] at hlen
    lia
  clean := h.clean
  text hm := h.text (.tail _ hm)

/-- a character is written where one was read before -/
theorem Lay.put (h : Lay p tail path pos outpos out gap cs) (hgap : gap ≠ []) (hc : c ≠ NUL) :
    Lay p tail (path.set outpos c) pos (outpos + 1) (c :: out) gap.tail cs := by
  obtain ⟨g, gap, rfl⟩ := List.exists_cons_of_ne_nil hgap
  refine ⟨?_, ?_, ?_, h.left, h.le, ?_, h.text⟩
  · rw [h.bytes, h.outAt, List.set_append_right _ _ (by simp)]
    simp
  · rw [h.outAt, List.length_cons]
  · have hpos := h.readAt
    rw [List.length_cons] at hpos
    rw [List.length_cons, List.tail_cons]
    lia
  · intro hm
    rcases List.mem_cons.mp hm with e | hm
    · exact hc e.symm
    · exact h.clean hm

/-- a character is copied -/
theorem Lay.copy (h : Lay p tail path pos outpos out gap (c :: cs)) :
    Lay p tail (path.set outpos c) (pos + 1) (outpos + 1) (c :: out) (gap ++ [c]).tail cs :=
  h.eat.put (by simp) h.ne_nul

/-- what was written last is given up -/
theorem Lay.back {a : List Char} (h : Lay p tail path pos outpos (a ++ out) gap cs) :
    Lay p tail path pos out.length out (a.reverse ++ gap) cs where
  bytes := by
    rw [h.bytes]
    simp
  outAt := rfl
  readAt := by
    rw [h.readAt, List.length_append, List.length_append, List.length_reverse]
    lia
  left := h.left
  le := h.le
  clean hm := h.clean (List.mem_append_right a hm)
  text := h.text

/-- the walk stops where `backtrack` does -/
theorem walkBack_reverse (out rest : List Char) :
    Norm.walkBack (out.reverse ++ rest) out.length = some (out.dropWhile (· ≠ '/')).length := by
  induction out generalizing rest with
  | nil => rfl
  | cons c out ih =>
    have hget : ((c :: out).reverse ++ rest)[out.length]? = some c := by
      rw [List.reverse_cons, List.append_assoc, List.getElem?_append_right (by simp)]
      simp
    rw [List.length_cons, Norm.walkBack, hget]
    dsimp only
    split
    · rename_i hc
      rw [List.dropWhile_cons_of_neg (by simp [hc])]
      rfl
    · rename_i hc
      rw [List.dropWhile_cons_of_pos (by simpa using hc), List.reverse_cons, List.append_assoc]
      exact ih _

theorem backtrack_suffix (out : List Char) : ∃ a, out = a ++ backtrack out := by
  obtain ⟨a, ha⟩ := (List.dropWhile_suffix (l := out.drop 1) (· ≠ '/')).trans (List.drop_suffix 1 out)
  exact ⟨a, ha.symm⟩

theorem Lay.consume (h : Lay p tail path pos outpos out gap cs) (state : PathState) (done : Bool) :
    ∃ gap', Norm.consume ⟨path, state, pos, outpos, done⟩ = some ⟨path, state, pos, (backtrack out).length, done⟩ ∧
      Lay p tail path pos (backtrack out).length (backtrack out) gap' cs := by
  obtain ⟨a, ha⟩ := backtrack_suffix out
  refine ⟨a.reverse ++ gap, ?_, ?_⟩
  · unfold Norm.consume
    dsimp only
    rw [h.outAt]
    cases out with
    | nil => rfl
    | cons c out =>
      have hwalk := walkBack_reverse out (c :: (gap ++ (cs ++ NUL :: tail)))
      rw [if_pos (by simp), h.bytes, List.reverse_cons, List.append_assoc, List.length_cons, Nat.add_sub_cancel]
      rw [List.singleton_append, hwalk]
      rfl
  · rw [ha] at h
    exact h.back

end

/-! ## a pass of the loop -/

/-- what the loop will write in the end, from a state -/
inductive At : PathState → List Char → List Char → List Char → List Char → Prop
  | initial (cs) : At .initial [] [] cs (normLoop .initial [] cs)
  | fieldStart {out gap cs} (h : cs.head? ≠ some '/') : At .fieldStart out gap cs (normLoop .seenSep out cs)
  | inField (out gap cs) : At .inField out gap cs (normLoop .inField out cs)
  | sep (out gap cs) : At .sep out gap ('/' :: cs) (normLoop .seenSep ('/' :: out) cs)
  | seenSep (out gap cs) : At .seenSep out gap cs (normLoop .seenSep out cs)
  | dot (out gap cs) : At .dot out gap ('.' :: cs) (normLoop .seenDot out cs)
  | seenDot {out gap cs} (h : 1 ≤ gap.length) : At .seenDot out gap cs (normLoop .seenDot out cs)
  | dotdot {out gap cs} (h : 1 ≤ gap.length) : At .dotdot out gap ('.' :: cs) (normLoop .seenDotdot out cs)
  | seenDotdot {out gap cs} (h : 2 ≤ gap.length) : At .seenDotdot out gap cs (normLoop .seenDotdot out cs)

/-- how many passes a state may still take before the next character is read -/
def PathState.rank : PathState → Nat
  | .sep | .dot | .dotdot => 0
  | .inField => 1
  | .fieldStart => 2
  | .initial | .seenSep | .seenDot | .seenDotdot => 3

/-- the loop runs, with at most `m` passes to go -/
def Running (p tail : List Char) (m : Nat) (n : Norm) : Prop :=
  ∃ out gap cs, Lay p tail n.path n.pos n.outpos out gap cs ∧ At n.state out gap cs (normLoop .initial [] p) ∧
    n.done = false ∧ 4 * cs.length + n.state.rank = m

/-- the loop is done -/
structure Finished (p tail : List Char) (n : Norm) : Prop where
  done : n.done = true
  path : ∃ gap, n.path = (normLoop .initial [] p).reverse ++ (gap ++ NUL :: tail)
  outpos : n.outpos = (normLoop .initial [] p).length
  le : n.outpos ≤ p.length
  length : n.path.length = p.length + 1 + tail.length
  pos : n.pos = p.length ∨ n.pos = p.length + 1
  clean : NUL ∉ normLoop .initial [] p

section
variable {p tail path out gap cs F : List Char} {pos outpos m : Nat} {c : Char} {n : Norm}

/-- a pass that keeps the loop running -/
def Goes (p tail : List Char) (m : Nat) (r : Option Norm) : Prop :=
  ∃ n, r = some n ∧ (Finished p tail n ∨ ∃ k < m, Running p tail k n)

theorem Goes.on {state : PathState} (h : Lay p tail path pos outpos out gap cs)
    (ha : At state out gap cs (normLoop .initial [] p)) (hm : 4 * cs.length + state.rank < m) :
    Goes p tail m (some ⟨path, state, pos, outpos, false⟩) :=
  ⟨_, rfl, .inr ⟨_, hm, out, gap, cs, h, ha, rfl, rfl⟩⟩

theorem Lay.length (h : Lay p tail path pos outpos out gap cs) : path.length = p.length + 1 + tail.length := by
  have hcs := congrArg List.length h.left
  have hle := h.le
  have hpos := h.readAt
  rw [List.length_drop] at hcs
  rw [h.bytes]
  simp
  lia

/-- the loop ends at the `NUL` -/
theorem Lay.finished {state : PathState} (h : Lay p tail path pos outpos out gap [])
    (ho : out = normLoop .initial [] p) {pos' : Nat} (hp : pos' = pos ∨ pos' = pos + 1) :
    Finished p tail ⟨path, state, pos', outpos, true⟩ := by
  have hpos : pos = p.length := Nat.le_antisymm h.le (List.drop_eq_nil_iff.mp h.left)
  have hread := h.readAt
  have hout := h.outAt
  refine ⟨rfl, ⟨gap, ?_⟩, ?_, ?_, h.length, ?_, ?_⟩
  · rw [← ho]
    exact h.bytes
  · rw [← ho]
    exact h.outAt
  · show outpos ≤ p.length
    lia
  · show pos' = p.length ∨ pos' = p.length + 1
    lia
  · rw [← ho]
    exact h.clean

theorem Goes.ends {state : PathState} (h : Lay p tail path pos outpos out gap [])
    (ho : out = normLoop .initial [] p) {pos' : Nat} (hp : pos' = pos ∨ pos' = pos + 1) :
    Goes p tail m (some ⟨path, state, pos', outpos, true⟩) :=
  ⟨_, rfl, .inl (h.finished ho hp)⟩

/-- a name that does not start with a dot is copied from its first character on -/
theorem normLoop_seenSep {cs : List Char} (h1 : cs.head? ≠ some '/') (h2 : cs.head? ≠ some '.') (out : List Char) :
    normLoop .seenSep out cs = normLoop .inField out cs := by
  cases cs with
  | nil => rfl
  | cons c cs =>
    have hc1 : c ≠ '/' := fun e => h1 (by rw [e]; rfl)
    have hc2 : c ≠ '.' := fun e => h2 (by rw [e]; rfl)
    rw [normLoop, if_neg hc1, normLoop, if_neg hc1, if_neg hc2]

theorem Lay.emit (h : Lay p tail path pos outpos out gap cs) (state : PathState) (done : Bool) (c : Char) :
    Norm.emit ⟨path, state, pos, outpos, done⟩ c = some ⟨path.set outpos c, state, pos, outpos + 1, done⟩ :=
  if_pos h.outpos_lt

theorem nul_ne_slash : NUL ≠ '/' := by decide

theorem nul_ne_dot : NUL ≠ '.' := by decide

/-! the states -/

theorem At.initial_goes (h : Lay p tail path pos outpos [] [] cs) (hF : normLoop .initial [] cs = normLoop .initial [] p)
    (hm : 4 * cs.length + 3 = m) (hc : (cs ++ NUL :: tail)[0]? = some c) :
    Goes p tail m (Norm.switch ⟨path, .initial, pos, outpos, false⟩ c) := by
  unfold Norm.switch
  cases cs with
  | nil =>
    cases hc
    dsimp only
    rw [if_neg nul_ne_slash, if_neg nul_ne_dot]
    refine .on h ?_ (by simp [PathState.rank, ← hm])
    rw [← hF]
    exact .fieldStart (by simp)
  | cons d cs =>
    cases hc
    dsimp only
    split
    · rename_i e
      subst e
      refine .on h ?_ (by simp [PathState.rank, ← hm])
      rw [← hF]
      exact .sep [] [] cs
    split
    · rename_i e
      subst e
      refine .on h ?_ (by simp [PathState.rank, ← hm])
      rw [← hF]
      exact .dot [] [] cs
    · rename_i e _
      have hhead : (c :: cs).head? ≠ some '/' := by simpa using e
      refine .on h ?_ (by simp [PathState.rank, ← hm])
      rw [← hF, normLoop_initial hhead]
      exact .fieldStart hhead

theorem At.fieldStart_goes (h : Lay p tail path pos outpos out gap cs) (hhead : cs.head? ≠ some '/')
    (hF : normLoop .seenSep out cs = normLoop .initial [] p)
    (hm : 4 * cs.length + 2 = m) (hc : (cs ++ NUL :: tail)[0]? = some c) :
    Goes p tail m (Norm.switch ⟨path, .fieldStart, pos, outpos, false⟩ c) := by
  unfold Norm.switch
  cases cs with
  | nil =>
    cases hc
    dsimp only
    rw [if_neg nul_ne_dot, if_pos rfl]
    exact .ends h hF (.inl rfl)
  | cons d cs =>
    cases hc
    dsimp only
    split
    · rename_i e
      subst e
      refine .on h ?_ (by simp [PathState.rank, ← hm])
      rw [← hF]
      exact .dot out gap cs
    · rename_i e
      rw [if_neg h.ne_nul]
      refine .on h ?_ (by simp [PathState.rank, ← hm])
      rw [← hF, normLoop_seenSep hhead (by simpa using e)]
      exact .inField out gap _

theorem At.inField_goes (h : Lay p tail path pos outpos out gap cs)
    (hF : normLoop .inField out cs = normLoop .initial [] p)
    (hm : 4 * cs.length + 1 = m) (hc : (cs ++ NUL :: tail)[0]? = some c) :
    Goes p tail m (Norm.switch ⟨path, .inField, pos, outpos, false⟩ c) := by
  unfold Norm.switch
  cases cs with
  | nil =>
    cases hc
    dsimp only
    rw [if_neg nul_ne_slash, if_pos rfl]
    exact .ends h hF (.inl rfl)
  | cons d cs =>
    cases hc
    dsimp only
    split
    · rename_i e
      subst e
      refine .on h ?_ (by simp [PathState.rank, ← hm])
      rw [← hF]
      exact .sep out gap cs
    · rename_i e
      rw [if_neg h.ne_nul, h.emit]
      refine .on h.copy ?_ (by simp [PathState.rank, ← hm])
      rw [normLoop, if_neg e] at hF
      rw [← hF]
      exact .inField _ _ cs

theorem At.sep_goes (h : Lay p tail path pos outpos out gap ('/' :: cs))
    (hF : normLoop .seenSep ('/' :: out) cs = normLoop .initial [] p) (hm : 4 * ('/' :: cs).length = m) :
    Goes p tail m (Norm.switch ⟨path, .sep, pos, outpos, false⟩ c) := by
  have hemit := h.eat.emit .sep false '/'
  unfold Norm.switch
  dsimp only
  rw [hemit]
  refine .on h.copy ?_ ?_
  · rw [← hF]
    exact .seenSep _ _ cs
  · rw [List.length_cons] at hm
    show 4 * cs.length + 3 < m
    omega

theorem At.seenSep_goes (h : Lay p tail path pos outpos out gap cs)
    (hF : normLoop .seenSep out cs = normLoop .initial [] p)
    (hm : 4 * cs.length + 3 = m) (hc : (cs ++ NUL :: tail)[0]? = some c) :
    Goes p tail m (Norm.switch ⟨path, .seenSep, pos, outpos, false⟩ c) := by
  unfold Norm.switch
  cases cs with
  | nil =>
    cases hc
    dsimp only
    rw [if_neg nul_ne_slash, if_pos rfl]
    exact .ends h hF (.inl rfl)
  | cons d cs =>
    cases hc
    dsimp only
    split
    · rename_i e
      subst e
      refine .on h.eat ?_ (by simp [PathState.rank, ← hm])
      rw [← hF]
      exact .seenSep out _ cs
    · rename_i e
      rw [if_neg h.ne_nul]
      refine .on h ?_ (by simp [PathState.rank, ← hm])
      rw [← hF]
      exact .fieldStart (by simpa using e)

/-- `DOT` and `DOTDOT` -/
theorem Lay.dot_goes {state : PathState} (h : Lay p tail path pos outpos out gap ('.' :: cs))
    (ha : At state out (gap ++ ['.']) cs (normLoop .initial [] p)) (hr : state.rank = 3)
    (hm : 4 * ('.' :: cs).length = m) : Goes p tail m (some ⟨path, state, pos + 1, outpos, false⟩) := by
  refine .on h.eat ha ?_
  rw [List.length_cons] at hm
  lia

theorem At.seenDot_goes (h : Lay p tail path pos outpos out gap cs) (hgap : 1 ≤ gap.length)
    (hF : normLoop .seenDot out cs = normLoop .initial [] p)
    (hm : 4 * cs.length + 3 = m) (hc : (cs ++ NUL :: tail)[0]? = some c) :
    Goes p tail m (Norm.switch ⟨path, .seenDot, pos, outpos, false⟩ c) := by
  unfold Norm.switch
  cases cs with
  | nil =>
    cases hc
    dsimp only
    rw [if_neg nul_ne_dot, if_neg nul_ne_slash, if_pos rfl]
    exact .ends h hF (.inl rfl)
  | cons d cs =>
    cases hc
    dsimp only
    split
    · rename_i e
      subst e
      refine .on h ?_ (by simp [PathState.rank, ← hm])
      rw [← hF]
      exact .dotdot hgap
    rename_i hdot
    split
    · rename_i e
      subst e
      refine .on h.eat ?_ (by simp [PathState.rank, ← hm])
      rw [← hF]
      exact .seenSep out _ cs
    · rename_i hslash
      have hput := h.put (List.length_pos_iff.mp hgap) nul_ne_dot.symm
      rw [if_neg h.ne_nul, h.emit]
      refine .on hput ?_ (by simp [PathState.rank, ← hm])
      have hgo : normLoop .inField ('.' :: out) (c :: cs) = normLoop .initial [] p := by
        rw [normLoop, if_neg hdot, if_neg hslash] at hF
        rw [normLoop, if_neg hslash, hF]
      rw [← hgo]
      exact .inField _ _ _

theorem At.seenDotdot_goes (h : Lay p tail path pos outpos out gap cs) (hgap : 2 ≤ gap.length)
    (hF : normLoop .seenDotdot out cs = normLoop .initial [] p)
    (hm : 4 * cs.length + 3 = m) (hc : (cs ++ NUL :: tail)[0]? = some c) :
    Goes p tail m (Norm.switch ⟨path, .seenDotdot, pos, outpos, false⟩ c) := by
  obtain ⟨gap', hcons, hback⟩ := h.consume .seenDotdot false
  unfold Norm.switch
  cases cs with
  | nil =>
    cases hc
    dsimp only
    rw [if_pos (.inr rfl), hcons]
    exact .ends hback hF (.inr rfl)
  | cons d cs =>
    cases hc
    dsimp only
    split
    · rename_i e
      have hslash : c = '/' := e.resolve_right h.ne_nul
      subst hslash
      rw [hcons]
      refine .on hback.eat ?_ (by simp [PathState.rank, ← hm])
      rw [← hF]
      exact .seenSep _ _ cs
    · rename_i e
      have hslash : c ≠ '/' := fun h => e (.inl h)
      have hput := h.put (List.length_pos_iff.mp (by omega)) nul_ne_dot.symm
      have hput' := hput.put (List.length_pos_iff.mp (by rw [List.length_tail]; omega)) nul_ne_dot.symm
      rw [h.emit, Option.bind_some, hput.emit]
      refine .on hput' ?_ (by simp [PathState.rank, ← hm])
      have hgo : normLoop .inField ('.' :: '.' :: out) (c :: cs) = normLoop .initial [] p := by
        rw [normLoop, if_neg hslash] at hF
        rw [normLoop, if_neg hslash, hF]
      rw [← hgo]
      exact .inField _ _ _

/-- **A pass of the loop** stays in the buffer and brings the end closer. -/
theorem Running.step (h : Running p tail m n) : Goes p tail m n.step := by
  obtain ⟨path, state, pos, outpos, done⟩ := n
  obtain ⟨out, gap, cs, hlay, hat, hdone, hm⟩ := h
  dsimp only at hlay hat hdone hm
  subst hdone
  obtain ⟨c, hc⟩ : ∃ c, (cs ++ NUL :: tail)[0]? = some c := by
    cases cs <;> exact ⟨_, rfl⟩
  have hstep : Norm.step ⟨path, state, pos, outpos, false⟩ = Norm.switch ⟨path, state, pos, outpos, false⟩ c := by
    unfold Norm.step
    dsimp only
    rw [hlay.read, hc]
    rfl
  rw [hstep]
  generalize hF : normLoop .initial [] p = F at hat
  cases hat with
  | initial cs => exact At.initial_goes hlay hF.symm hm hc
  | fieldStart hhead => exact At.fieldStart_goes hlay hhead hF.symm hm hc
  | inField => exact At.inField_goes hlay hF.symm hm hc
  | sep => exact At.sep_goes hlay hF.symm hm
  | seenSep => exact At.seenSep_goes hlay hF.symm hm hc
  | dot =>
    refine hlay.dot_goes ?_ rfl hm
    rw [hF]
    exact .seenDot (by simp)
  | seenDot hgap => exact At.seenDot_goes hlay hgap hF.symm hm hc
  | dotdot hgap =>
    refine hlay.dot_goes ?_ rfl hm
    rw [hF]
    exact .seenDotdot (by rw [List.length_append]; exact Nat.succ_le_succ hgap)
  | seenDotdot hgap => exact At.seenDotdot_goes hlay hgap hF.symm hm hc

end

/-! ## the whole call -/

section
variable {p tail buf : List Char} {n : Norm}

/-- the invariant of the loop -/
def NormInv (p tail : List Char) (n : Norm) : Prop := Finished p tail n ∨ ∃ m, Running p tail m n

theorem Running.start (hp : NUL ∉ p) (tail : List Char) :
    Running p tail (4 * p.length + 3) (.start (p ++ NUL :: tail)) :=
  ⟨[], [], p, ⟨rfl, rfl, rfl, rfl, Nat.zero_le _, List.not_mem_nil, hp⟩, .initial p, rfl, rfl⟩

theorem Running.not_done {m : Nat} (h : Running p tail m n) : n.done = false := by
  obtain ⟨out, gap, cs, -, -, hdone, -⟩ := h
  exact hdone

theorem NormInv.step {n' : Norm} (h : NormInv p tail n) (hs : (if n.done then none else n.step) = some n') :
    NormInv p tail n' := by
  rcases h with h | ⟨m, h⟩
  · rw [h.done] at hs
    cases hs
  · rw [h.not_done] at hs
    obtain ⟨n'', hstep, hnext⟩ := h.step
    have e : n'' = n' := Option.some.inj (hstep.symm.trans hs)
    subst e
    rcases hnext with hf | ⟨k, -, hr⟩
    · exact .inl hf
    · exact .inr ⟨k, hr⟩

theorem normSys_inv (hp : NUL ∉ p) (hr : (normSys (p ++ NUL :: tail)).Reach n) : NormInv p tail n :=
  hr.invariant (I := NormInv p tail)
    (fun _ h0 => by
      rw [h0]
      exact .inr ⟨_, .start hp tail⟩)
    fun _ _ _ h _ hs => h.step hs

/-- the loop ends -/
theorem Running.ends {m : Nat} (h : Running p tail m n) (hr : (normSys buf).Reach n) :
    ∃ n', (normSys buf).Reach n' ∧ Finished p tail n' := by
  induction m using Nat.strong_induction_on generalizing n with
  | _ m ih =>
    obtain ⟨n', hstep, hnext⟩ := h.step
    have hr' : (normSys buf).Reach n' := by
      refine .step (a := ()) hr trivial ?_
      show (if n.done then none else n.step) = some n'
      rw [h.not_done]
      exact hstep
    rcases hnext with hf | ⟨k, hk, hrun⟩
    · exact ⟨n', hr', hf⟩
    · exact ih k hk hrun hr'

/-- the string that a `NUL` ends -/
theorem cstr_append {a : List Char} (ha : NUL ∉ a) (rest : List Char) : cstr (a ++ NUL :: rest) = a := by
  unfold cstr
  rw [List.takeWhile_append_of_pos]
  · simp
  · intro c hc
    have : c ≠ NUL := fun e => ha (e ▸ hc)
    simpa using this

/-- a `NUL` is written behind `a` -/
theorem set_nul {a b : List Char} (hb : b ≠ []) : (a ++ b).set a.length NUL = a ++ NUL :: b.tail := by
  obtain ⟨c, b, rfl⟩ := List.exists_cons_of_ne_nil hb
  rw [List.set_append_right _ _ (Nat.le_refl _), Nat.sub_self]
  rfl

/-- the two ways to end -/
theorem stripSlash_cases (out : List Char) :
    (stripSlash out = out.reverse ∧ ¬ (1 < out.length ∧ out.head? = some '/')) ∨
      ∃ o, out = '/' :: o ∧ o ≠ [] ∧ stripSlash out = o.reverse := by
  cases out with
  | nil => exact .inl ⟨rfl, by simp⟩
  | cons c o =>
    by_cases hc : c = '/'
    · subst hc
      by_cases ho : o = []
      · subst ho
        exact .inl ⟨rfl, by simp⟩
      · exact .inr ⟨o, rfl, ho, stripSlash_slash ho⟩
    · exact .inl ⟨stripSlash_cons hc o, by simp [hc]⟩

/-- where the `NUL` goes: the slash in front of it is cut, and what is left starts the buffer -/
theorem Finished.finish (h : Finished p tail n) :
    ∃ rest, n.finish = some (fsNormalizePath p ++ NUL :: rest) ∧ (fsNormalizePath p).length ≤ p.length ∧
      (fsNormalizePath p ++ NUL :: rest).drop (p.length + 1) = tail ∧ NUL ∉ fsNormalizePath p := by
  obtain ⟨gap, hpath⟩ := h.path
  have hout := h.outpos
  have hle := h.le
  have hlen := h.length
  have hclean := h.clean
  rw [fsNormalizePath_strip]
  generalize normLoop .initial [] p = out at *
  have hgap : out.length + gap.length = p.length := by
    have := congrArg List.length hpath
    simp at this
    lia
  -- `a` stays, and `b` is behind it
  have hcut : ∀ (a b : List Char) (k : Nat), k = a.length → b ≠ [] → n.path = a ++ b → NUL ∉ a → a.length ≤ p.length →
      ∃ rest, (if k < n.path.length then some (n.path.set k NUL) else none) = some (a ++ NUL :: rest) ∧
        a.length ≤ p.length ∧ (a ++ NUL :: rest).drop (p.length + 1) = tail ∧ NUL ∉ a := by
    intro a b k hk hb hab hna hal
    subst hk
    refine ⟨b.tail, ?_, hal, ?_, hna⟩
    · rw [if_pos (by lia), hab, set_nul hb]
    · rw [← set_nul hb, ← hab, List.drop_set_of_lt (by lia), hpath, ← List.append_assoc, List.append_cons,
        List.drop_left']
      simp
      lia
  have hlast : 1 < n.outpos → n.path[n.outpos - 1]? = out.head? := by
    intro h1
    cases out with
    | nil =>
      rw [hout] at h1
      cases h1
    | cons c out =>
      rw [hpath, hout]
      simp
  unfold Norm.finish
  dsimp only
  rcases stripSlash_cases out with ⟨hs, hno⟩ | ⟨o, rfl, hne, hs⟩
  · rw [hs]
    refine hcut out.reverse (gap ++ NUL :: tail) _ ?_ (by simp) hpath (fun hm => hclean (List.mem_reverse.mp hm)) ?_
    · rw [if_neg fun h => hno ⟨hout ▸ h.1, (hlast h.1).symm.trans h.2⟩, hout, List.length_reverse]
    · rw [List.length_reverse]
      lia
  · have h1 : 1 < n.outpos := by
      rw [hout, List.length_cons]
      have := List.length_pos_iff.mpr hne
      lia
    rw [List.length_cons] at hout
    rw [hs]
    refine hcut o.reverse ('/' :: (gap ++ NUL :: tail)) _ ?_ (by simp) ?_
      (fun hm => hclean (.tail _ (List.mem_reverse.mp hm))) ?_
    · rw [if_pos ⟨h1, hlast h1⟩, hout, List.length_reverse, Nat.add_sub_cancel]
    · rw [hpath, List.reverse_cons, List.append_assoc]
      rfl
    · rw [List.length_reverse]
      lia

/-- what is left to read is still the path's, and the writes are behind it -/
theorem NormInv.behind (h : NormInv p tail n) :
    n.outpos ≤ n.pos ∧ n.path.drop n.pos = (p ++ NUL :: tail).drop n.pos := by
  rcases h with h | ⟨m, out, gap, cs, hlay, -⟩
  · obtain ⟨gap, hpath⟩ := h.path
    have hle := h.le
    have hpos := h.pos
    have hlen := h.length
    refine ⟨by lia, ?_⟩
    rw [hpath, List.length_append, List.length_append, List.length_cons] at hlen
    have hdrop : ∀ a : List Char, a.length = p.length →
        (a ++ NUL :: tail).drop n.pos = (NUL :: tail).drop (n.pos - p.length) := by
      intro a ha
      rw [List.drop_append, ha, List.drop_eq_nil_of_le (by lia), List.nil_append]
    rw [hpath, ← List.append_assoc, hdrop _ (by rw [List.length_append]; lia), hdrop p rfl]
  · have hpos := hlay.readAt
    have hout := hlay.outAt
    refine ⟨by lia, ?_⟩
    rw [List.drop_append_of_le_length hlay.le, hlay.left, hlay.bytes, ← List.append_assoc]
    exact List.drop_left' (by rw [hpos, List.length_append, List.length_reverse])

theorem NormInv.goes (h : NormInv p tail n) (hd : n.done = false) : n.step ≠ none := by
  rcases h with h | ⟨m, h⟩
  · rw [h.done] at hd
    cases hd
  · obtain ⟨n', hstep, -⟩ := h.step
    rw [hstep]
    exact Option.some_ne_none n'

theorem NormInv.finished (h : NormInv p tail n) (hd : n.done = true) : Finished p tail n := by
  rcases h with h | ⟨m, h⟩
  · exact h
  · rw [h.not_done] at hd
    cases hd

/-- **What is left in the buffer** -/
theorem leaves_cases (hp : NUL ∉ p) (h : Leaves (p ++ NUL :: tail) buf) :
    ∃ rest, buf = fsNormalizePath p ++ NUL :: rest ∧ (fsNormalizePath p).length ≤ p.length ∧
      buf.drop (p.length + 1) = tail ∧ NUL ∉ fsNormalizePath p := by
  obtain ⟨n, hr, hd, hfin⟩ := h
  obtain ⟨rest, hbuf, hlen, hdrop, hclean⟩ := ((normSys_inv hp hr).finished hd).finish
  have e := Option.some.inj (hbuf.symm.trans hfin)
  subst e
  exact ⟨rest, rfl, hlen, hdrop, hclean⟩

theorem leaves_some (hp : NUL ∉ p) (tail : List Char) : ∃ buf, Leaves (p ++ NUL :: tail) buf := by
  obtain ⟨n, hr, hf⟩ := (Running.start hp tail).ends (.init rfl)
  obtain ⟨rest, hbuf, -⟩ := hf.finish
  exact ⟨_, n, hr, hf.done, hbuf⟩

end

/-! ## the law -/

/-- a path is rewritten to its normal form, in place, once and for all -/
structure Normalizes (p : List Char) : Prop where
  /-- the call returns, and does not leave the buffer -/
  returns : ∀ tail, ∃ buf, Leaves (p ++ NUL :: tail) buf
  inside : ∀ tail n, (normSys (p ++ NUL :: tail)).Reach n → n.done = false → n.step ≠ none
  /-- the reference form is left, and nothing behind the path is touched -/
  exact : ∀ tail buf, Leaves (p ++ NUL :: tail) buf → cstr buf = normalForm p ∧ buf.drop (p.length + 1) = tail
  short : ∀ tail buf, Leaves (p ++ NUL :: tail) buf → (cstr buf).length ≤ p.length
  /-- the output never overtakes the read position: what is left to read is as the caller gave it -/
  behind : ∀ tail n, (normSys (p ++ NUL :: tail)).Reach n →
    n.outpos ≤ n.pos ∧ n.path.drop n.pos = (p ++ NUL :: tail).drop n.pos
  idempotent : ∀ tail buf buf', Leaves (p ++ NUL :: tail) buf → Leaves buf buf' → cstr buf' = cstr buf

/-- **Path normalisation.**  A path is rewritten to its normal form exactly if it is relative, or no `..` comes where
no component is left. -/
theorem normalizes_iff {p : List Char} (hp : NUL ∉ p) :
    Normalizes p ↔ (isAbsolute p = true → climbsAbove p = false) := by
  have hcstr : ∀ tail buf, Leaves (p ++ NUL :: tail) buf → cstr buf = fsNormalizePath p := by
    intro tail buf hl
    obtain ⟨rest, rfl, -, -, hclean⟩ := leaves_cases hp hl
    exact cstr_append hclean rest
  rw [← fsNormalizePath_iff]
  constructor
  · intro h
    obtain ⟨buf, hl⟩ := h.returns []
    rw [← hcstr [] buf hl]
    exact (h.exact [] buf hl).1
  intro hform
  refine ⟨leaves_some hp, fun tail n hr => (normSys_inv hp hr).goes, fun tail buf hl => ?_, fun tail buf hl => ?_,
    fun tail n hr => (normSys_inv hp hr).behind, fun tail buf buf' hl hl' => ?_⟩
  · obtain ⟨rest, -, -, hdrop, -⟩ := leaves_cases hp hl
    exact ⟨(hcstr tail buf hl).trans hform, hdrop⟩
  · obtain ⟨rest, -, hlen, -⟩ := leaves_cases hp hl
    rw [hcstr tail buf hl]
    exact hlen
  · rw [hcstr tail buf hl]
    obtain ⟨rest, rfl, -, -, hclean⟩ := leaves_cases hp hl
    obtain ⟨rest', rfl, -, -, hclean'⟩ := leaves_cases hclean hl'
    rw [cstr_append hclean', fsNormalizePath_idem]

/-- the theorem for "/a//.././b/" -/
theorem normalizes_dotdot : Normalizes "/a//.././b/".toList :=
  (normalizes_iff (by decide)).mpr fun _ => by decide

/-- **"/../foo"** is rewritten to "foo". -/
theorem normalizes_fails : ¬ ∀ p, NUL ∉ p → Normalizes p := by
  intro h
  have hp : NUL ∉ "/../foo".toList := by decide
  have hn := h _ hp
  obtain ⟨buf, hl⟩ := hn.returns []
  have hform := (hn.exact [] buf hl).1
  obtain ⟨rest, rfl, -, -, hclean⟩ := leaves_cases hp hl
  rw [cstr_append hclean] at hform
  exact absurd hform (by decide)

end LkHv.Fs
