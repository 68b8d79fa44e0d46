import LkHv.Fs.PathForm

/-!
# Which mount a path is given to (`lib/fs/fs.c`)

`find_mount` takes the first mount in the list whose path is a prefix of the string.

* `Covers`             a mount path is the path, or ends at a component boundary of it;
* `findRest`           the rest of the path, which is passed on;
* `NewerInside`        no mount in the list has the path of an older one, or a longer one, in any run;
* `findMount_shortest` so what is found is the shortest prefix that is mounted;
* `resolves_iff`       it is the longest mount that covers the path exactly if the shortest prefix is the only cover;
* `resolves_fails`     "/foobar" is given to the mount at "/foo".
-/

namespace LkHv.Fs

/-! ## what is asked -/

/-- a mount path is equal to the path, or a prefix of it that ends at a component boundary -/
def Covers (mountPath path : List Char) : Prop :=
  mountPath = path ∨ mountPath ++ ['/'] <+: path ∨ mountPath <+: path ∧ ['/'] <:+ mountPath

instance (mountPath path : List Char) : Decidable (Covers mountPath path) :=
  inferInstanceAs (Decidable (_ ∨ _ ∨ _ ∧ _))

namespace FsState

/-- `*trimmed_path`, after a mount was found -/
def findRest (s : FsState) (path : List Char) : Option (List Char) :=
  (s.findMount path).2.map fun m => path.drop (s.mnt m).path.length

end FsState

/-- the path is given to the longest mount that covers it, with the rest of the path -/
structure Resolves (s : FsState) (path : List Char) : Prop where
  found : ∀ m, (s.findMount path).2 = some m → m ∈ s.mounts ∧ Covers (s.mnt m).path path ∧
    ∀ k ∈ s.mounts, k ≠ m → Covers (s.mnt k).path path → (s.mnt k).path.length < (s.mnt m).path.length
  missing : (s.findMount path).2 = none → ∀ k ∈ s.mounts, ¬ Covers (s.mnt k).path path
  rest : ∀ m rest, (s.findMount path).2 = some m → s.findRest path = some rest → (s.mnt m).path ++ rest = path

/-- the mount has the shortest path of those that the string starts with -/
def Shortest (s : FsState) (path : List Char) (m : Nat) : Prop :=
  ∀ k ∈ s.mounts, (s.mnt k).path <+: path → (s.mnt m).path.length ≤ (s.mnt k).path.length

/-- of the mounts that the string starts with the shortest one covers the path, and no other does -/
def OneCover (s : FsState) (path : List Char) : Prop :=
  ∀ m ∈ s.mounts, (s.mnt m).path <+: path → (Covers (s.mnt m).path path ↔ Shortest s path m)

theorem Covers.prefix {mountPath path : List Char} (h : Covers mountPath path) : mountPath <+: path := by
  rcases h with rfl | h | ⟨h, -⟩
  · exact List.prefix_rfl
  · exact (List.prefix_append _ _).trans h
  · exact h

/-! ## the list of mounts -/

/-- a mount further down the list is older, and its path is no prefix of a newer one's -/
structure NewerInside (s : FsState) : Prop where
  lt : ∀ m ∈ s.mounts, m < s.next
  newer : s.mounts.Pairwise fun m k => m ≠ k ∧ ¬ (s.mnt k).path <+: (s.mnt m).path

/-- a call that mounts nothing -/
structure NoMount (s s' : FsState) : Prop where
  mounts : s'.mounts.Sublist s.mounts
  path : ∀ m, (s'.mnt m).path = (s.mnt m).path
  next : s'.next = s.next

section
variable {s s' t : FsState} {m : Nat} {path : List Char} {err : Int}

theorem NoMount.refl (s : FsState) : NoMount s s := ⟨.refl _, fun _ => rfl, rfl⟩

theorem NoMount.trans (h : NoMount s s') (h' : NoMount s' t) : NoMount s t :=
  ⟨h'.mounts.trans h.mounts, fun m => (h'.path m).trans (h.path m), h'.next.trans h.next⟩

theorem NewerInside.noMount (h : NewerInside s) (hk : NoMount s s') : NewerInside s' where
  lt m hm := by
    rw [hk.next]
    exact h.lt m (hk.mounts.subset hm)
  newer := by
    refine (h.newer.sublist hk.mounts).imp fun {m k} hmk => ⟨hmk.1, ?_⟩
    rw [hk.path m, hk.path k]
    exact hmk.2

theorem path_setRef (s : FsState) (m : Nat) (r : Int) (k : Nat) : ((s.setRef m r).mnt k).path = (s.mnt k).path := by
  unfold FsState.setRef
  by_cases e : k = m
  · subst e
    simp
  · simp [e]

theorem NoMount.setRef (s : FsState) (m : Nat) (r : Int) : NoMount s (s.setRef m r) :=
  ⟨.refl _, path_setRef s m r, rfl⟩

theorem NoMount.putMount (s : FsState) (m : Nat) : NoMount s (s.putMount m) := by
  unfold FsState.putMount
  split
  · exact ⟨.refl _, fun _ => rfl, rfl⟩
  split
  · exact ⟨List.erase_sublist, path_setRef s m 0, rfl⟩
  · exact .setRef s m _

theorem NoMount.findMount (s : FsState) (path : List Char) : NoMount s (s.findMount path).1 := by
  rcases findMount_cases s path with h | ⟨m, -, h⟩
  · rw [h]
    exact .refl s
  · rw [h]
    exact .setRef s m _

theorem NoMount.openMount (s : FsState) (path : List Char) (hook : FsApi → Bool) (dir : Bool) (err : Int) :
    NoMount s (s.openMount path hook dir err).1 := by
  have hfind := NoMount.findMount s path
  unfold FsState.openMount
  split
  · rename_i heq
    rw [heq] at hfind
    exact hfind
  · rename_i m heq
    rw [heq] at hfind
    split
    · exact hfind.trans (.putMount _ m)
    split
    · exact hfind.trans (.putMount _ m)
    · exact hfind.trans ⟨.refl _, fun _ => rfl, rfl⟩

theorem NoMount.useMount (s : FsState) (path : List Char) (hook : FsApi → Bool) (err : Int) :
    NoMount s (s.useMount path hook err).1 := by
  have hfind := NoMount.findMount s path
  unfold FsState.useMount
  split
  · rename_i heq
    rw [heq] at hfind
    exact hfind
  · rename_i m heq
    rw [heq] at hfind
    split <;> exact hfind.trans (.putMount _ m)

theorem NoMount.closeMount (s : FsState) (h : Nat) (t : Handle) (hook : FsApi → Bool) (err : Int) :
    NoMount s (s.closeMount h t hook err).1 := by
  unfold FsState.closeMount
  split
  · exact ⟨.refl _, fun _ => rfl, rfl⟩
  split
  · exact .refl s
  split
  · exact .refl s
  · have hput := NoMount.putMount s t.mount
    exact ⟨hput.mounts, hput.path, hput.next⟩

theorem NoMount.fsUnmount (s : FsState) (path : List Char) : NoMount s (s.fsUnmount path).1 := by
  have hfind := NoMount.findMount s (tempPath path)
  unfold FsState.fsUnmount
  split
  · rename_i heq
    rw [heq] at hfind
    exact hfind
  · rename_i m heq
    rw [heq] at hfind
    exact (hfind.trans (.putMount _ m)).trans (.putMount _ m)

/-- nothing that is found is a prefix -/
theorem findMount_none (h : (s.findMount path).2 = none) : ∀ k ∈ s.mounts, ¬ (s.mnt k).path <+: path := by
  intro k hk hp
  unfold FsState.findMount at h
  split at h
  · cases h
  · rename_i hfind
    have := List.find?_eq_none.mp hfind k hk
    exact this (List.isPrefixOf_iff_prefix.mpr hp)

/-- **A new mount** has no older one's path in front of its own. -/
theorem NewerInside.mount (h : NewerInside s) {device : Device} {api : FsApi} :
    NewerInside (s.mount path device api err).1 := by
  have hadd : (s.findMount (tempPath path)).2 = none → ∀ dev, NewerInside { s with
      mnt := Function.update s.mnt s.next ⟨tempPath path, dev, 1, api⟩
      next := s.next + 1
      mounts := s.next :: s.mounts } := by
    intro hnone dev
    have hne : ∀ k ∈ s.mounts, k ≠ s.next := fun k hk => (h.lt k hk).ne
    refine ⟨fun m hm => ?_, ?_⟩
    · show m < s.next + 1
      rcases List.mem_cons.mp hm with rfl | hm
      · exact Nat.lt_succ_self _
      · exact Nat.lt_succ_of_lt (h.lt m hm)
    show (s.next :: s.mounts).Pairwise _
    rw [List.pairwise_cons]
    refine ⟨fun k hk => ⟨(hne k hk).symm, ?_⟩, h.newer.imp_of_mem fun {m k} hm hk hmk => ⟨hmk.1, ?_⟩⟩
    · show ¬ (Function.update s.mnt s.next _ k).path <+: (Function.update s.mnt s.next _ s.next).path
      rw [Function.update_self, Function.update_of_ne (hne k hk)]
      exact findMount_none hnone k hk
    · show ¬ (Function.update s.mnt s.next _ k).path <+: (Function.update s.mnt s.next _ m).path
      rw [Function.update_of_ne (hne k hk), Function.update_of_ne (hne m hm)]
      exact hmk.2
  unfold FsState.mount
  split
  · exact h
  rcases findMount_cases s (tempPath path) with hf | ⟨m, -, hf⟩
  · have hnone : (s.findMount (tempPath path)).2 = none := by rw [hf]
    rw [hf]
    cases device with
    | missing => exact h
    | none =>
      dsimp only
      split
      · exact h
      · exact hadd hnone _
    | found =>
      dsimp only
      split
      · exact h
      · exact hadd hnone _
  · rw [hf]
    exact h.noMount ((NoMount.setRef s m _).trans (.putMount _ m))

theorem NewerInside.step (h : NewerInside s) {op : FsOp} (hs : fsStep s op = some s') : NewerInside s' := by
  cases op with
  | mount path fs device err =>
    cases hs
    cases fs with
    | none => exact h
    | some api => exact h.mount
  | unmount path =>
    cases hs
    exact h.noMount (.fsUnmount s path)
  | openFile path err =>
    cases hs
    exact h.noMount (.openMount s _ _ _ _)
  | createFile path err =>
    cases hs
    exact h.noMount (.openMount s _ _ _ _)
  | openDir path err =>
    cases hs
    exact h.noMount (.openMount s _ _ _ _)
  | removeFile path err =>
    cases hs
    exact h.noMount (.useMount s _ _ _)
  | makeDir path err =>
    cases hs
    exact h.noMount (.useMount s _ _ _)
  | statFs path err =>
    cases hs
    exact h.noMount (.useMount s _ _ _)
  | close i err =>
    obtain ⟨t, -, rfl⟩ := Option.map_eq_some_iff.mp hs
    split
    · exact h.noMount (.closeMount s _ _ _ _)
    · exact h.noMount (.closeMount s _ _ _ _)

theorem newerInside_reach (hr : fsSys.Reach s) : NewerInside s :=
  hr.invariant (I := NewerInside)
    (fun s h0 => by
      refine ⟨fun m hm => ?_, ?_⟩
      · rw [h0.mounts] at hm
        cases hm
      · rw [h0.mounts]
        exact .nil)
    fun _ _ _ h _ hs => h.step hs

/-! ## what is found -/

/-- the first mount of the list that is a prefix -/
theorem findMount_some (h : (s.findMount path).2 = some m) :
    (s.mnt m).path <+: path ∧ ∃ pre post, s.mounts = pre ++ m :: post ∧ ∀ k ∈ pre, ¬ (s.mnt k).path <+: path := by
  unfold FsState.findMount at h
  split at h
  · rename_i k hfind
    cases h
    obtain ⟨hp, pre, post, hsplit, hpre⟩ := List.find?_eq_some_iff_append.mp hfind
    refine ⟨List.isPrefixOf_iff_prefix.mp hp, pre, post, hsplit, fun j hj hjp => ?_⟩
    have := hpre j hj
    rw [List.isPrefixOf_iff_prefix.mpr hjp] at this
    cases this
  · cases h

/-- **The shortest prefix that is mounted** is found: an older mount that is one as well is longer. -/
theorem findMount_shortest (hn : NewerInside s) (h : (s.findMount path).2 = some m) :
    m ∈ s.mounts ∧ (s.mnt m).path <+: path ∧
      ∀ k ∈ s.mounts, k ≠ m → (s.mnt k).path <+: path → (s.mnt m).path.length < (s.mnt k).path.length := by
  obtain ⟨hp, pre, post, hsplit, hpre⟩ := findMount_some h
  refine ⟨by rw [hsplit]; simp, hp, fun k hk hne hkp => ?_⟩
  have hpost : k ∈ post := by
    rw [hsplit] at hk
    rcases List.mem_append.mp hk with hk | hk
    · exact absurd hkp (hpre k hk)
    · exact (List.mem_cons.mp hk).resolve_left hne
  have hnewer := hn.newer
  rw [hsplit, List.pairwise_append] at hnewer
  have hnot := ((List.pairwise_cons.mp hnewer.2.1).1 k hpost).2
  by_contra hle
  exact hnot (List.prefix_of_prefix_length_le hkp hp (Nat.not_lt.mp hle))

theorem findRest_append (h : (s.findMount path).2 = some m) {rest : List Char} (hrest : s.findRest path = some rest) :
    (s.mnt m).path ++ rest = path := by
  obtain ⟨⟨t, ht⟩, -⟩ := findMount_some h
  unfold FsState.findRest at hrest
  rw [h, Option.map_some] at hrest
  cases hrest
  rw [← ht, List.drop_left]

/-- **Mount resolution.**  In every state of every run, a path is given to the longest mount that covers it exactly
if, of the mounts that the string starts with, the shortest one covers it and no other does. -/
theorem resolves_iff (hr : fsSys.Reach s) (path : List Char) : Resolves s path ↔ OneCover s path := by
  have hn := newerInside_reach hr
  constructor
  · intro h m hm hp
    cases hfind : (s.findMount path).2 with
    | none => exact absurd hp (findMount_none hfind m hm)
    | some k =>
      obtain ⟨hk, hcov, hlong⟩ := h.found k hfind
      obtain ⟨-, hkp, hshort⟩ := findMount_shortest hn hfind
      by_cases e : m = k
      · subst e
        refine ⟨fun _ j hj hjp => ?_, fun _ => hcov⟩
        by_cases ej : j = m
        · rw [ej]
        · exact (hshort j hj ej hjp).le
      · have hlt := hshort m hm e hp
        refine ⟨fun hc => ?_, fun hs => ?_⟩
        · have := hlong m hm e hc
          omega
        · have := hs k hk hkp
          omega
  · intro h
    refine ⟨fun m hfind => ?_, fun hnone k hk hc => findMount_none hnone k hk hc.prefix, fun m rest hm hrest =>
      findRest_append hm hrest⟩
    obtain ⟨hm, hp, hshort⟩ := findMount_shortest hn hfind
    refine ⟨hm, (h m hm hp).mpr fun j hj hjp => ?_, fun k hk hne hc => ?_⟩
    · by_cases ej : j = m
      · rw [ej]
      · exact (hshort j hj ej hjp).le
    · have h1 := hshort k hk hne hc.prefix
      have h2 := (h k hk hc.prefix).mp hc m hm hp
      omega

end

/-! ## one mount -/

/-- a filesystem at "/foo" -/
def fooMounted : FsState := (noMounts.fsMount "/foo".toList (some allApi) .none 0).1

theorem fooMounted_reach : fsSys.Reach fooMounted :=
  .step (a := .mount "/foo".toList (some allApi) .none 0) (.init noMounts_boot) trivial rfl

/-- the theorem for a file in it -/
theorem resolves_foo : Resolves fooMounted "/foo/bar".toList := by
  refine (resolves_iff fooMounted_reach _).mpr fun m hm _ => ?_
  have hm0 : m = 0 := List.mem_singleton.mp hm
  subst hm0
  refine ⟨fun _ k hk _ => ?_, fun _ => by decide⟩
  have hk0 : k = 0 := List.mem_singleton.mp hk
  rw [hk0]

/-- **"/foobar"** is given to the mount at "/foo". -/
theorem resolves_fails :
    ¬ ∀ s path, fsSys.Reach s → fsNormalizePath path = path → Resolves s path := by
  intro h
  have hres := h fooMounted "/foobar".toList fooMounted_reach (by decide)
  have hfind : (fooMounted.findMount "/foobar".toList).2 = some 0 := by decide
  exact absurd (hres.found 0 hfind).2.1 (by decide)

end LkHv.Fs
