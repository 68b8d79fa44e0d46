import LkHv.Fs.Mount

/-!
# The normal form of a path

A path is split at `/`.  Empty components and `.` are dropped, `..` takes back the component before it.

* `resolve`, `normalForm`     the components that are left, and the path made of them;
* `climbs`                    a `..` comes where no component is left to take back;
* `fsNormalizePath_eq`        what `fs_normalize_path` leaves: a `..` of that kind costs it the leading `/`;
* `fsNormalizePath_iff`       it is the normal form of a path that is relative, or does not climb;
* `fsNormalizePath_idem`      a second time it changes nothing.
-/

namespace LkHv.Fs

/-! ## the reference -/

/-- the components of a path, empty ones included -/
def components (path : List Char) : List (List Char) := path.splitOn '/'

/-- one more component; the stack has the last one first -/
def enter (stack : List (List Char)) (f : List Char) : List (List Char) :=
  if f = [] ∨ f = ['.'] then stack else if f = ['.', '.'] then stack.tail else f :: stack

def resolve (path : List Char) : List (List Char) := (components path).foldl enter []

def isAbsolute (path : List Char) : Bool := path.head? = some '/'

/-- the leading `/` of an absolute path -/
def rootOf (absolute : Bool) : List Char := if absolute then ['/'] else []

/-- the path of a stack of components -/
def joined (absolute : Bool) (stack : List (List Char)) : List Char :=
  rootOf absolute ++ ['/'].intercalate stack.reverse

/-- the normal form of a path -/
def normalForm (path : List Char) : List Char := joined (isAbsolute path) (resolve path)

/-- a `..` is entered on an empty stack -/
def climbs : List (List Char) → List (List Char) → Bool
  | _, [] => false
  | stack, f :: fs => (stack = [] && f = ['.', '.']) || climbs (enter stack f) fs

/-- a `..` climbs above where the path starts -/
def climbsAbove (path : List Char) : Bool := climbs [] (components path)

/-! ## components that stay -/

/-- a name, which `enter` pushes -/
structure IsName (f : List Char) : Prop where
  ne_nil : f ≠ []
  ne_dot : f ≠ ['.']
  ne_dotdot : f ≠ ['.', '.']
  no_slash : '/' ∉ f

theorem enter_name {stack : List (List Char)} {f : List Char} (h : IsName f) : enter stack f = f :: stack := by
  unfold enter
  rw [if_neg (not_or.mpr ⟨h.ne_nil, h.ne_dot⟩), if_neg h.ne_dotdot]

theorem enter_nil (stack : List (List Char)) : enter stack [] = stack := if_pos (.inl rfl)

theorem enter_dotdot (stack : List (List Char)) : enter stack ['.', '.'] = stack.tail := by
  unfold enter
  rw [if_neg (by decide), if_pos rfl]

/-- only names are on the stack -/
theorem enter_names {stack : List (List Char)} {f : List Char} (hs : ∀ g ∈ stack, IsName g) (hf : '/' ∉ f) :
    ∀ g ∈ enter stack f, IsName g := by
  intro g hg
  unfold enter at hg
  split at hg
  · exact hs g hg
  rename_i h1
  split at hg
  · exact hs g (List.mem_of_mem_tail hg)
  rename_i h2
  obtain ⟨hnil, hdot⟩ := not_or.mp h1
  rcases List.mem_cons.mp hg with rfl | hg
  · exact ⟨hnil, hdot, h2, hf⟩
  · exact hs g hg

theorem foldl_enter_names {fs : List (List Char)} (hf : ∀ f ∈ fs, '/' ∉ f) :
    ∀ {stack : List (List Char)}, (∀ g ∈ stack, IsName g) → ∀ g ∈ fs.foldl enter stack, IsName g := by
  induction fs with
  | nil =>
    intro stack hs
    exact hs
  | cons f fs ih =>
    intro stack hs
    exact ih (fun g hg => hf g (.tail _ hg)) (enter_names hs (hf f (.head _)))

/-- names are pushed one after the other -/
theorem foldl_enter_of_names {fs : List (List Char)} (hf : ∀ f ∈ fs, IsName f) (stack : List (List Char)) :
    fs.foldl enter stack = fs.reverse ++ stack ∧ climbs stack fs = false := by
  induction fs generalizing stack with
  | nil => exact ⟨rfl, rfl⟩
  | cons f fs ih =>
    have hname := hf f (.head _)
    obtain ⟨h1, h2⟩ := ih (fun g hg => hf g (.tail _ hg)) (f :: stack)
    refine ⟨?_, ?_⟩
    · rw [List.foldl_cons, enter_name hname, h1, List.reverse_cons, List.append_assoc]
      rfl
    · unfold climbs
      rw [enter_name hname, h2]
      simp [hname.ne_dotdot]

/-! ## what is split -/

/-- a path is one component, or a component, a `/` and a shorter path -/
theorem path_cases (path : List Char) : '/' ∉ path ∨ ∃ f rest, path = f ++ '/' :: rest ∧ '/' ∉ f := by
  by_cases h : '/' ∈ path
  · obtain ⟨f, rest, he, hf⟩ := List.eq_append_cons_of_mem h
    exact .inr ⟨f, rest, he, hf⟩
  · exact .inl h

theorem components_single {f : List Char} (h : '/' ∉ f) : components f = [f] := List.splitOn_eq_singleton h

theorem components_append {f : List Char} (h : '/' ∉ f) (rest : List Char) :
    components (f ++ '/' :: rest) = f :: components rest := List.splitOn_append_cons_self_of_not_mem h rest

/-- **Induction on the components** -/
theorem components_induction {motive : List Char → Prop} (single : ∀ f, '/' ∉ f → motive f)
    (append : ∀ f rest, '/' ∉ f → motive rest → motive (f ++ '/' :: rest)) (path : List Char) : motive path := by
  rcases path_cases path with h | ⟨f, rest, he, hf⟩
  · exact single path h
  · have hlt : rest.length < path.length := by
      rw [he, List.length_append, List.length_cons]
      omega
    rw [he]
    exact append f rest hf (components_induction single append rest)
termination_by path.length

theorem components_no_slash (path : List Char) : ∀ f ∈ components path, '/' ∉ f := by
  induction path using components_induction with
  | single f hf =>
    rw [components_single hf]
    intro g hg
    rw [List.mem_singleton.mp hg]
    exact hf
  | append f rest hf ih =>
    rw [components_append hf]
    intro g hg
    rcases List.mem_cons.mp hg with rfl | hg
    · exact hf
    · exact ih g hg

theorem resolve_names (path : List Char) : ∀ f ∈ resolve path, IsName f :=
  foldl_enter_names (components_no_slash path) fun _ hg => absurd hg List.not_mem_nil

/-! ## a normal form is its own -/

theorem head?_intercalate {fs : List (List Char)} (hf : ∀ f ∈ fs, IsName f) : (['/'].intercalate fs).head? ≠ some '/' := by
  cases fs with
  | nil =>
    intro h
    cases h
  | cons f fs =>
    have hname := hf f (.head _)
    obtain ⟨c, f', rfl⟩ := List.exists_cons_of_ne_nil hname.ne_nil
    have hc : c ≠ '/' := fun h => hname.no_slash (by rw [h]; exact .head _)
    cases fs with
    | nil =>
      rw [List.intercalate_singleton]
      simpa using hc
    | cons g fs =>
      rw [List.intercalate_cons_cons]
      simpa using hc

/-- what a path made of names splits into -/
theorem foldl_components {fs : List (List Char)} (hf : ∀ f ∈ fs, IsName f) :
    (components (['/'].intercalate fs)).foldl enter [] = fs.reverse ∧
      climbs [] (components (['/'].intercalate fs)) = false := by
  by_cases h : fs = []
  · subst h
    exact ⟨rfl, rfl⟩
  · have hsplit : components (['/'].intercalate fs) = fs :=
      List.splitOn_intercalate '/' (fun f hm => (hf f hm).no_slash) h
    rw [hsplit]
    obtain ⟨h1, h2⟩ := foldl_enter_of_names hf []
    exact ⟨by rw [h1, List.append_nil], h2⟩

theorem components_slash (path : List Char) : components ('/' :: path) = [] :: components path :=
  components_append List.not_mem_nil path

theorem isAbsolute_joined {stack : List (List Char)} (hs : ∀ f ∈ stack, IsName f) (absolute : Bool) :
    isAbsolute (joined absolute stack) = absolute := by
  cases absolute with
  | true => rfl
  | false => exact decide_eq_false (head?_intercalate fun f hf => hs f (List.mem_reverse.mp hf))

theorem components_joined {stack : List (List Char)} (hs : ∀ f ∈ stack, IsName f) (absolute : Bool) :
    resolve (joined absolute stack) = stack ∧ climbsAbove (joined absolute stack) = false := by
  have hrev : ∀ f ∈ stack.reverse, IsName f := fun f hf => hs f (List.mem_reverse.mp hf)
  obtain ⟨h1, h2⟩ := foldl_components hrev
  rw [List.reverse_reverse] at h1
  cases absolute with
  | true =>
    have hsplit : components (joined true stack) = [] :: components (['/'].intercalate stack.reverse) :=
      components_slash _
    refine ⟨?_, ?_⟩
    · show (components (joined true stack)).foldl enter [] = stack
      rw [hsplit, List.foldl_cons, enter_nil, h1]
    · show climbs [] (components (joined true stack)) = false
      rw [hsplit, climbs, enter_nil, h2]
      rfl
  | false => exact ⟨h1, h2⟩

/-! ## the output of the loop -/

/-- what is written, the last character first, when the components on the stack are left -/
def outOf (absolute : Bool) (stack : List (List Char)) : List Char :=
  stack.flatMap (fun f => '/' :: f.reverse) ++ rootOf absolute

/-- the last slash goes, if it is not the first character -/
def stripSlash : List Char → List Char
  | '/' :: c :: out => (c :: out).reverse
  | out => out.reverse

theorem fsNormalizePath_strip (path : List Char) :
    fsNormalizePath path = stripSlash (normLoop .initial [] path) := rfl

theorem stripSlash_cons {c : Char} (h : c ≠ '/') (out : List Char) : stripSlash (c :: out) = (c :: out).reverse := by
  unfold stripSlash
  split
  · rename_i heq
    cases heq
    exact absurd rfl h
  · rfl

theorem stripSlash_slash {out : List Char} (h : out ≠ []) : stripSlash ('/' :: out) = out.reverse := by
  obtain ⟨c, out, rfl⟩ := List.exists_cons_of_ne_nil h
  rfl

theorem outOf_cons (absolute : Bool) (f : List Char) (stack : List (List Char)) :
    outOf absolute (f :: stack) = '/' :: (f.reverse ++ outOf absolute stack) := by
  unfold outOf
  rw [List.flatMap_cons, List.append_assoc]
  rfl

theorem outOf_slash (absolute : Bool) (stack : List (List Char)) :
    outOf absolute stack = [] ∨ ∃ out, outOf absolute stack = '/' :: out := by
  cases stack with
  | nil =>
    cases absolute with
    | true => exact .inr ⟨[], rfl⟩
    | false => exact .inl rfl
  | cons f stack => exact .inr ⟨_, outOf_cons absolute f stack⟩

theorem intercalate_snoc (fs : List (List Char)) (f : List Char) :
    ['/'].intercalate (fs ++ [f]) = fs.flatMap (fun g => g ++ ['/']) ++ f := by
  induction fs with
  | nil => exact List.intercalate_singleton
  | cons g fs ih =>
    rw [List.cons_append, List.intercalate_cons_of_ne_nil (by simp), ih, List.flatMap_cons]
    simp

theorem reverse_outOf (absolute : Bool) (stack : List (List Char)) :
    (outOf absolute stack).reverse = rootOf absolute ++ stack.reverse.flatMap (fun g => g ++ ['/']) := by
  induction stack with
  | nil => cases absolute <;> rfl
  | cons f stack ih =>
    rw [outOf_cons, List.reverse_cons, List.reverse_append, List.reverse_reverse, ih, List.reverse_cons,
      List.flatMap_append]
    simp

theorem stripSlash_outOf (absolute : Bool) {stack : List (List Char)} (hs : ∀ f ∈ stack, IsName f) :
    stripSlash (outOf absolute stack) = joined absolute stack := by
  cases stack with
  | nil => cases absolute <;> rfl
  | cons f stack =>
    have hne : f.reverse ++ outOf absolute stack ≠ [] := by
      simp [(hs f (.head _)).ne_nil]
    rw [outOf_cons, stripSlash_slash hne, List.reverse_append, List.reverse_reverse, reverse_outOf]
    unfold joined
    rw [List.reverse_cons, intercalate_snoc, List.append_assoc]

/-! ## one component of the loop -/

theorem dropWhile_field {f : List Char} (hf : '/' ∉ f) {out : List Char} (ho : out = [] ∨ ∃ o, out = '/' :: o) :
    (f ++ out).dropWhile (· ≠ '/') = out := by
  induction f with
  | nil =>
    rcases ho with rfl | ⟨o, rfl⟩
    · rfl
    · rfl
  | cons c f ih =>
    have hc : c ≠ '/' := fun h => hf (by rw [h]; exact .head _)
    rw [List.cons_append, List.dropWhile_cons_of_pos (by simpa using hc)]
    exact ih fun h => hf (.tail _ h)

/-- `..` takes back a component; the leading slash is taken when there is none -/
theorem backtrack_outOf (absolute : Bool) {stack : List (List Char)} (hs : ∀ f ∈ stack, IsName f) :
    backtrack (outOf absolute stack) = outOf (absolute && stack ≠ []) stack.tail := by
  cases stack with
  | nil => cases absolute <;> rfl
  | cons f stack =>
    have hf : '/' ∉ f.reverse := fun h => (hs f (.head _)).no_slash (List.mem_reverse.mp h)
    rw [outOf_cons]
    unfold backtrack
    rw [List.drop_one, List.tail_cons, dropWhile_field hf (outOf_slash absolute stack)]
    simp

/-- characters that are not a slash are copied -/
theorem normLoop_inField {f : List Char} (hf : '/' ∉ f) (out rest : List Char) :
    normLoop .inField out (f ++ rest) = normLoop .inField (f.reverse ++ out) rest := by
  induction f generalizing out with
  | nil => rfl
  | cons c f ih =>
    have hc : c ≠ '/' := fun h => hf (by rw [h]; exact .head _)
    rw [List.cons_append, normLoop, if_neg hc, ih (fun h => hf (.tail _ h)), List.reverse_cons]
    simp

/-- a name is copied whole, dots in front or not -/
theorem normLoop_name {f : List Char} (hf : IsName f) (out rest : List Char) :
    normLoop .seenSep out (f ++ rest) = normLoop .inField (f.reverse ++ out) rest := by
  obtain ⟨c, f, rfl⟩ := List.exists_cons_of_ne_nil hf.ne_nil
  have hc : c ≠ '/' := fun h => hf.no_slash (by rw [h]; exact .head _)
  have hslash : '/' ∉ f := fun h => hf.no_slash (.tail _ h)
  rw [List.cons_append, normLoop, if_neg hc]
  split
  · rename_i hdot
    subst hdot
    cases f with
    | nil => exact absurd rfl hf.ne_dot
    | cons d f =>
      have hd : d ≠ '/' := fun h => hslash (by rw [h]; exact .head _)
      have hslash' : '/' ∉ f := fun h => hslash (.tail _ h)
      rw [List.cons_append, normLoop]
      split
      · rename_i hdot
        subst hdot
        cases f with
        | nil => exact absurd rfl hf.ne_dotdot
        | cons e f =>
          have he : e ≠ '/' := fun h => hslash' (by rw [h]; exact .head _)
          rw [List.cons_append, normLoop, if_neg he, normLoop_inField fun h => hslash' (.tail _ h)]
          simp
      · rw [normLoop_inField hslash']
        simp
  · rw [normLoop_inField hslash]
    simp

/-- what `enter` sees -/
theorem field_cases {f : List Char} (hf : '/' ∉ f) : f = [] ∨ f = ['.'] ∨ f = ['.', '.'] ∨ IsName f := by
  by_cases h0 : f = []
  · exact .inl h0
  by_cases h1 : f = ['.']
  · exact .inr (.inl h1)
  by_cases h2 : f = ['.', '.']
  · exact .inr (.inr (.inl h2))
  · exact .inr (.inr (.inr ⟨h0, h1, h2, hf⟩))

/-- whether the leading slash is still there after a component -/
def keeps (absolute : Bool) (stack : List (List Char)) (f : List Char) : Bool :=
  absolute && !(stack = [] && f = ['.', '.'])

theorem keeps_of_ne {f : List Char} (h : f ≠ ['.', '.']) (absolute : Bool) (stack : List (List Char)) :
    keeps absolute stack f = absolute := by
  unfold keeps
  rw [decide_eq_false h, Bool.and_false, Bool.not_false, Bool.and_true]

theorem keeps_dotdot (absolute : Bool) (stack : List (List Char)) :
    keeps absolute stack ['.', '.'] = (absolute && stack ≠ []) := by
  unfold keeps
  by_cases h : stack = [] <;> simp [h]

/-- a component and the slash behind it -/
theorem normLoop_component (absolute : Bool) {stack : List (List Char)} (hs : ∀ f ∈ stack, IsName f) {f : List Char}
    (hf : '/' ∉ f) (rest : List Char) : normLoop .seenSep (outOf absolute stack) (f ++ '/' :: rest) =
      normLoop .seenSep (outOf (keeps absolute stack f) (enter stack f)) rest := by
  rcases field_cases hf with rfl | rfl | rfl | hname
  · rw [keeps_of_ne (by decide), enter_nil]
    rfl
  · rw [keeps_of_ne (by decide)]
    rfl
  · rw [keeps_dotdot, enter_dotdot, ← backtrack_outOf absolute hs]
    rfl
  · rw [normLoop_name hname, keeps_of_ne hname.ne_dotdot, enter_name hname, outOf_cons]
    rfl

/-- the last component -/
theorem normLoop_last (absolute : Bool) {stack : List (List Char)} (hs : ∀ f ∈ stack, IsName f) {f : List Char}
    (hf : '/' ∉ f) : stripSlash (normLoop .seenSep (outOf absolute stack) f) =
      stripSlash (outOf (keeps absolute stack f) (enter stack f)) := by
  rcases field_cases hf with rfl | rfl | rfl | hname
  · rw [keeps_of_ne (by decide), enter_nil]
    rfl
  · rw [keeps_of_ne (by decide)]
    rfl
  · rw [keeps_dotdot, enter_dotdot, ← backtrack_outOf absolute hs]
    rfl
  · have h := normLoop_name hname (outOf absolute stack) []
    rw [List.append_nil] at h
    obtain ⟨c, g, hrev⟩ := List.exists_cons_of_ne_nil (List.reverse_ne_nil_iff.mpr hname.ne_nil)
    have hc : c ≠ '/' := by
      rintro rfl
      exact hname.no_slash (List.mem_reverse.mp (by rw [hrev]; exact .head _))
    rw [h, keeps_of_ne hname.ne_dotdot, enter_name hname, outOf_cons, stripSlash_slash (by simp [hname.ne_nil]), hrev]
    exact stripSlash_cons hc _

theorem keeps_climbs (absolute : Bool) (stack : List (List Char)) (f : List Char) (fs : List (List Char)) :
    (keeps absolute stack f && !climbs (enter stack f) fs) = (absolute && !climbs stack (f :: fs)) := by
  unfold keeps
  rw [climbs, Bool.not_or, Bool.and_assoc]

/-- **The loop, from the start of a component.** -/
theorem normLoop_components (path : List Char) (absolute : Bool) {stack : List (List Char)}
    (hs : ∀ f ∈ stack, IsName f) : stripSlash (normLoop .seenSep (outOf absolute stack) path) =
      joined (absolute && !climbs stack (components path)) ((components path).foldl enter stack) := by
  induction path using components_induction generalizing absolute stack with
  | single f hf =>
    rw [normLoop_last absolute hs hf, components_single hf, ← keeps_climbs, stripSlash_outOf _ (enter_names hs hf)]
    simp [climbs]
  | append f rest hf ih =>
    rw [normLoop_component absolute hs hf, ih _ (enter_names hs hf), components_append hf, keeps_climbs]
    rfl

/-! ## what `fs_normalize_path` leaves -/

theorem no_names : ∀ f ∈ ([] : List (List Char)), IsName f := fun _ h => absurd h List.not_mem_nil

/-- a relative path starts like a component -/
theorem normLoop_initial {path : List Char} (h : path.head? ≠ some '/') :
    normLoop .initial [] path = normLoop .seenSep [] path := by
  cases path with
  | nil => rfl
  | cons c path =>
    have hc : c ≠ '/' := fun e => h (by rw [e]; rfl)
    rw [normLoop, if_neg hc, normLoop, if_neg hc]

/-- **What `fs_normalize_path` leaves**: the components of the normal form, behind a `/` if the path is absolute and
does not climb -/
theorem fsNormalizePath_eq (path : List Char) :
    fsNormalizePath path = joined (isAbsolute path && !climbsAbove path) (resolve path) := by
  rw [fsNormalizePath_strip]
  by_cases h : path.head? = some '/'
  · obtain ⟨rest, rfl⟩ : ∃ rest, path = '/' :: rest := List.head?_eq_some_iff.mp h
    have hout : outOf true [] = ['/'] := rfl
    have hloop : normLoop .initial [] ('/' :: rest) = normLoop .seenSep (outOf true []) rest := rfl
    rw [hloop, normLoop_components rest true no_names]
    unfold climbsAbove resolve
    rw [components_slash, climbs, List.foldl_cons, enter_nil]
    rfl
  · rw [normLoop_initial h]
    have hloop := normLoop_components path false no_names
    rw [show outOf false [] = [] from rfl] at hloop
    rw [hloop]
    unfold isAbsolute
    rw [decide_eq_false h]
    rfl

/-- **The normal form** is left exactly if the path is relative or does not climb. -/
theorem fsNormalizePath_iff (path : List Char) :
    fsNormalizePath path = normalForm path ↔ (isAbsolute path = true → climbsAbove path = false) := by
  rw [fsNormalizePath_eq]
  unfold normalForm
  constructor
  · intro h habs
    have hnames := resolve_names path
    have h' := congrArg isAbsolute h
    rw [isAbsolute_joined hnames, isAbsolute_joined hnames, habs, Bool.true_and] at h'
    simpa using h'
  · intro h
    cases habs : isAbsolute path with
    | false => rfl
    | true =>
      rw [h habs]
      rfl

/-- **A second time** `fs_normalize_path` changes nothing. -/
theorem fsNormalizePath_idem (path : List Char) : fsNormalizePath (fsNormalizePath path) = fsNormalizePath path := by
  have hnames := resolve_names path
  rw [fsNormalizePath_eq path, fsNormalizePath_eq (joined _ _), isAbsolute_joined hnames]
  obtain ⟨h1, h2⟩ := components_joined hnames (isAbsolute path && !climbsAbove path)
  rw [h1, h2, Bool.not_false, Bool.and_true]

end LkHv.Fs
