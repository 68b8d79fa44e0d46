import LkHv.Kernel.Err
import LkHv.Lib.Machine
import Mathlib.Algebra.Order.Group.Nat
import Mathlib.Data.List.Nodup

/-!
# Mounts and their references (`lib/fs/fs.c`)

A mount structure and a handle are their numbers.  What the filesystem answers is part of each call.

* `fsNormalizePath`        the paths;
* `findMount`, `putMount`, `mount`, `fsUnmount`   the source's;
* `openMount`, `useMount`, `closeMount`   what the calls on files and directories do with a mount;
* `fsSys`                  any sequence of calls;
* `MountsExact`            the counts are exact, and a structure is given up once, when nothing refers to it;
* `mounts_exact`           so it is in runs that unmount what has no handle open;
* `mounts_exact_fails`     not so after an unmount with a handle open.
-/

namespace LkHv.Fs

def FS_MAX_PATH_LEN : Nat := 128

/-! ## paths -/

/-- the states of `fs_normalize_path` that read a character -/
inductive NormState
  | initial
  | inField
  | seenSep
  | seenDot
  | seenDotdot

/-- a `..` takes back the last field; `out` is what was written, the last character first -/
def backtrack (out : List Char) : List Char := (out.drop 1).dropWhile (· ≠ '/')

/-- the loop of `fs_normalize_path` -/
@[local grind =] def normLoop : NormState → List Char → List Char → List Char
  | .seenDotdot, out, [] => backtrack out
  | _, out, [] => out
  | .initial, out, c :: cs =>
    if c = '/' then normLoop .seenSep ('/' :: out) cs
    else if c = '.' then normLoop .seenDot out cs
    else normLoop .inField (c :: out) cs
  | .inField, out, c :: cs =>
    if c = '/' then normLoop .seenSep ('/' :: out) cs else normLoop .inField (c :: out) cs
  | .seenSep, out, c :: cs =>
    if c = '/' then normLoop .seenSep out cs
    else if c = '.' then normLoop .seenDot out cs
    else normLoop .inField (c :: out) cs
  | .seenDot, out, c :: cs =>
    if c = '.' then normLoop .seenDotdot out cs
    else if c = '/' then normLoop .seenSep out cs
    else normLoop .inField (c :: '.' :: out) cs
  | .seenDotdot, out, c :: cs =>
    if c = '/' then normLoop .seenSep (backtrack out) cs else normLoop .inField (c :: '.' :: '.' :: out) cs

def fsNormalizePath (path : List Char) : List Char :=
  match normLoop .initial [] path with
  | '/' :: c :: out => (c :: out).reverse
  | out => out.reverse

/-- `temppath`, after `strlcpy` and `fs_normalize_path` -/
def tempPath (path : List Char) : List Char := fsNormalizePath (path.take (FS_MAX_PATH_LEN - 1))

/-! ## mounts -/

/-- the functions of `struct fs_api` that may be missing -/
structure FsApi where
  create : Bool
  remove : Bool
  mkdir : Bool
  opendir : Bool
  closedir : Bool
  fsStat : Bool

/-- `struct fs_mount` -/
structure FsMount where
  path : List Char
  /-- a device is held open -/
  dev : Bool
  ref : Int
  api : FsApi

/-- `struct filehandle` or `struct dirhandle` -/
structure Handle where
  mount : Nat
  dir : Bool

/-- the device of a `mount` call -/
inductive Device
  | none
  | found
  | missing

structure FsState where
  mounts : List Nat
  mnt : Nat → FsMount
  /-- the structures from here on are not allocated yet -/
  next : Nat
  /-- the open handles -/
  handles : List (Nat × Handle)
  nextHandle : Nat
  /-- how often a structure was unmounted in its filesystem, and freed -/
  unmounts : Nat → Nat
  frees : Nat → Nat
  /-- a freed structure was used -/
  wild : Bool

namespace FsState

def setRef (s : FsState) (m : Nat) (ref : Int) : FsState :=
  { s with mnt := Function.update s.mnt m { s.mnt m with ref := ref } }

/-- `find_mount` -/
def findMount (s : FsState) (path : List Char) : FsState × Option Nat :=
  match s.mounts.find? fun m => (s.mnt m).path.isPrefixOf path with
  | some m => (s.setRef m ((s.mnt m).ref + 1), some m)
  | none => (s, none)

/-- `put_mount` -/
def putMount (s : FsState) (m : Nat) : FsState :=
  if s.frees m ≠ 0 then { s with wild := true }
  else if (s.mnt m).ref - 1 = 0 then
    { s.setRef m 0 with
      mounts := s.mounts.erase m
      unmounts := Function.update s.unmounts m (s.unmounts m + 1)
      frees := Function.update s.frees m (s.frees m + 1) }
  else s.setRef m ((s.mnt m).ref - 1)

/-- `mount`; `err` is what the filesystem's `mount` returns -/
def mount (s : FsState) (path : List Char) (device : Device) (api : FsApi) (err : Int) : FsState × Int :=
  if (tempPath path).head? ≠ some '/' then (s, ERR_BAD_PATH)
  else
    match s.findMount (tempPath path) with
    | (s, some m) => (s.putMount m, ERR_ALREADY_MOUNTED)
    | (s, none) =>
      match device with
      | .missing => (s, ERR_NOT_FOUND)
      | device =>
        if err < 0 then (s, err)
        else
          ({ s with
              mnt := Function.update s.mnt s.next
                ⟨tempPath path, match device with | .found => true | _ => false, 1, api⟩
              next := s.next + 1
              mounts := s.next :: s.mounts }, 0)

/-- `fs_mount`; `fs` is what `find_fs` finds -/
def fsMount (s : FsState) (path : List Char) (fs : Option FsApi) (device : Device) (err : Int) : FsState × Int :=
  match fs with
  | none => (s, ERR_NOT_FOUND)
  | some api => s.mount path device api err

/-- `fs_unmount` -/
def fsUnmount (s : FsState) (path : List Char) : FsState × Int :=
  match s.findMount (tempPath path) with
  | (s, none) => (s, ERR_NOT_FOUND)
  | (s, some m) => ((s.putMount m).putMount m, 0)

/-! ## files and directories -/

/-- a call that opens a handle, by a function that `hook` says is there, which returns `err` -/
def openMount (s : FsState) (path : List Char) (hook : FsApi → Bool) (dir : Bool) (err : Int) : FsState × Int :=
  match s.findMount path with
  | (s, none) => (s, ERR_NOT_FOUND)
  | (s, some m) =>
    if ¬ hook (s.mnt m).api then (s.putMount m, ERR_NOT_SUPPORTED)
    else if err < 0 then (s.putMount m, err)
    else ({ s with handles := (s.nextHandle, ⟨m, dir⟩) :: s.handles, nextHandle := s.nextHandle + 1 }, 0)

def fsOpenFile (s : FsState) (path : List Char) (err : Int) : FsState × Int :=
  s.openMount (tempPath path) (fun _ => true) false err

def fsCreateFile (s : FsState) (path : List Char) (err : Int) : FsState × Int :=
  s.openMount (tempPath path) FsApi.create false err

def fsOpenDir (s : FsState) (path : List Char) (err : Int) : FsState × Int :=
  s.openMount (tempPath path) FsApi.opendir true err

/-- a call that works on a path -/
def useMount (s : FsState) (path : List Char) (hook : FsApi → Bool) (err : Int) : FsState × Int :=
  match s.findMount path with
  | (s, none) => (s, ERR_NOT_FOUND)
  | (s, some m) =>
    if ¬ hook (s.mnt m).api then (s.putMount m, ERR_NOT_SUPPORTED) else (s.putMount m, err)

def fsRemoveFile (s : FsState) (path : List Char) (err : Int) : FsState × Int :=
  s.useMount (tempPath path) FsApi.remove err

def fsMakeDir (s : FsState) (path : List Char) (err : Int) : FsState × Int :=
  s.useMount (tempPath path) FsApi.mkdir err

/-- the path is taken as it is -/
def fsStatFs (s : FsState) (path : List Char) (err : Int) : FsState × Int := s.useMount path FsApi.fsStat err

/-- a call that closes the handle `h` -/
def closeMount (s : FsState) (h : Nat) (t : Handle) (hook : FsApi → Bool) (err : Int) : FsState × Int :=
  if s.frees t.mount ≠ 0 then ({ s with wild := true }, err)
  else if ¬ hook (s.mnt t.mount).api then (s, ERR_NOT_SUPPORTED)
  else if err < 0 then (s, err)
  else ({ s.putMount t.mount with handles := s.handles.filter (·.1 ≠ h) }, 0)

def fsCloseFile (s : FsState) (h : Nat) (t : Handle) (err : Int) : FsState × Int :=
  s.closeMount h t (fun _ => true) err

def fsCloseDir (s : FsState) (h : Nat) (t : Handle) (err : Int) : FsState × Int := s.closeMount h t FsApi.closedir err

end FsState

/-! ## the machine -/

inductive FsOp
  | mount (path : List Char) (fs : Option FsApi) (device : Device) (err : Int)
  | unmount (path : List Char)
  | openFile (path : List Char) (err : Int)
  | createFile (path : List Char) (err : Int)
  | openDir (path : List Char) (err : Int)
  | removeFile (path : List Char) (err : Int)
  | makeDir (path : List Char) (err : Int)
  | statFs (path : List Char) (err : Int)
  /-- `fs_close_file` or `fs_close_dir` of an open handle -/
  | close (h : Nat) (err : Int)

def fsStep (s : FsState) : FsOp → Option FsState
  | .mount path fs device err => some (s.fsMount path fs device err).1
  | .unmount path => some (s.fsUnmount path).1
  | .openFile path err => some (s.fsOpenFile path err).1
  | .createFile path err => some (s.fsCreateFile path err).1
  | .openDir path err => some (s.fsOpenDir path err).1
  | .removeFile path err => some (s.fsRemoveFile path err).1
  | .makeDir path err => some (s.fsMakeDir path err).1
  | .statFs path err => some (s.fsStatFs path err).1
  | .close h err => (s.handles.lookup h).map fun t =>
    if t.dir then (s.fsCloseDir h t err).1 else (s.fsCloseFile h t err).1

/-- nothing is mounted -/
structure FsBoot (s : FsState) : Prop where
  mounts : s.mounts = []
  next : s.next = 0
  handles : s.handles = []
  unmounts : ∀ m, s.unmounts m = 0
  frees : ∀ m, s.frees m = 0
  wild : s.wild = false

def fsSys : Machine FsState FsOp := .ofFun FsBoot fsStep

/-- the number of open handles on a mount -/
def openCount (s : FsState) (m : Nat) : Nat := s.handles.countP fun h => h.2.mount = m

/-- a listed structure counts its handles and one more; one that is not listed was unmounted and freed once, and no
handle refers to it -/
structure MountsExact (s : FsState) : Prop where
  listed : ∀ m ∈ s.mounts, s.mounts.count m = 1 ∧ (s.mnt m).ref = openCount s m + 1 ∧ s.unmounts m = 0 ∧ s.frees m = 0
  gone : ∀ m < s.next, m ∉ s.mounts → openCount s m = 0 ∧ s.unmounts m = 1 ∧ s.frees m = 1
  wild : s.wild = false

/-- only what has no handle open is unmounted -/
def UnmountGuard (s : FsState) : FsOp → Prop
  | .unmount path => ∀ m, (s.findMount (tempPath path)).2 = some m → openCount s m = 0
  | _ => True

/-! ## the invariant -/

/-- `MountsExact`, with numbers that are not given out yet -/
structure MountInv (s : FsState) : Prop where
  exact : MountsExact s
  lt : ∀ m ∈ s.mounts, m < s.next
  fresh : ∀ m, s.next ≤ m → openCount s m = 0 ∧ s.unmounts m = 0 ∧ s.frees m = 0
  handle : ∀ h ∈ s.handles, h.1 < s.nextHandle
  nodup : (s.handles.map Prod.fst).Nodup

section
variable {s s' : FsState} {m : Nat} {path : List Char} {err : Int}

theorem MountInv.listed_of_open (h : MountInv s) (hm : 0 < openCount s m) : m ∈ s.mounts := by
  by_contra hn
  by_cases hlt : m < s.next
  · have := (h.exact.gone m hlt hn).1
    lia
  · have := (h.fresh m (by lia)).1
    lia

/-- what `find_mount` finds -/
theorem findMount_cases (s : FsState) (path : List Char) : s.findMount path = (s, none) ∨
      ∃ m ∈ s.mounts, s.findMount path = (s.setRef m ((s.mnt m).ref + 1), some m) := by
  unfold FsState.findMount
  split
  · rename_i m hm
    exact .inr ⟨m, List.mem_of_find?_eq_some hm, rfl⟩
  · exact .inl rfl

theorem setRef_setRef (s : FsState) (m : Nat) (r : Int) : (s.setRef m r).setRef m (s.mnt m).ref = s := by
  unfold FsState.setRef
  simp

/-- a reference of a listed structure that is not the last one is given back -/
theorem putMount_listed (hm : s.frees m = 0) {r : Int} (hr : (s.mnt m).ref = r + 1) (h0 : r ≠ 0) :
    s.putMount m = s.setRef m r := by
  unfold FsState.putMount
  rw [if_neg (by lia), if_neg (by lia)]
  congr 1
  lia

/-- the reference that `find_mount` took is given back -/
theorem MountInv.put_taken (h : MountInv s) (hm : m ∈ s.mounts) :
    (s.setRef m ((s.mnt m).ref + 1)).putMount m = s := by
  obtain ⟨-, href, -, hfree⟩ := h.exact.listed m hm
  have hget : ((s.setRef m ((s.mnt m).ref + 1)).mnt m).ref = (s.mnt m).ref + 1 := by
    unfold FsState.setRef
    simp
  rw [putMount_listed (s := s.setRef m _) (r := (s.mnt m).ref) hfree hget (by omega), setRef_setRef]

theorem mnt_setRef (s : FsState) (m k : Nat) (r : Int) :
    ((s.setRef m r).mnt k).ref = if k = m then r else (s.mnt k).ref := by
  unfold FsState.setRef
  by_cases e : k = m
  · rw [e, if_pos rfl]
    simp
  · rw [if_neg e]
    simp [e]

/-! ## the calls -/

theorem MountInv.useMount (h : MountInv s) (hook : FsApi → Bool) : (s.useMount path hook err).1 = s := by
  unfold FsState.useMount
  rcases findMount_cases s path with hf | ⟨m, hm, hf⟩
  · rw [hf]
  · rw [hf]
    dsimp only
    split <;> exact h.put_taken hm

/-- a handle on a listed structure is opened -/
theorem MountInv.opened (h : MountInv s) (hm : m ∈ s.mounts) (dir : Bool) :
    MountInv { s.setRef m ((s.mnt m).ref + 1) with
      handles := (s.nextHandle, ⟨m, dir⟩) :: s.handles, nextHandle := s.nextHandle + 1 } := by
  have hcount : ∀ k, (List.countP (fun t : Nat × Handle => t.2.mount = k) ((s.nextHandle, ⟨m, dir⟩) :: s.handles)) =
      openCount s k + if k = m then 1 else 0 := by
    intro k
    rw [List.countP_cons]
    by_cases e : k = m
    · simp [openCount, e]
    · simp [openCount, e, Ne.symm e]
  refine ⟨⟨fun k hk => ?_, fun k hk hn => ?_, h.exact.wild⟩, h.lt, fun k hk => ?_, fun t ht => ?_, ?_⟩
  · obtain ⟨h1, h2, h3, h4⟩ := h.exact.listed k hk
    refine ⟨h1, ?_, h3, h4⟩
    show ((s.setRef m ((s.mnt m).ref + 1)).mnt k).ref = (List.countP _ _ : Nat) + 1
    rw [hcount, mnt_setRef]
    split
    · rename_i e
      subst e
      omega
    · omega
  · obtain ⟨h1, h2, h3⟩ := h.exact.gone k hk hn
    refine ⟨?_, h2, h3⟩
    show List.countP _ _ = 0
    rw [hcount, h1, if_neg]
    rintro rfl
    exact hn hm
  · obtain ⟨h1, h2, h3⟩ := h.fresh k hk
    refine ⟨?_, h2, h3⟩
    show List.countP _ _ = 0
    rw [hcount, h1, if_neg]
    rintro rfl
    exact absurd (h.lt _ hm) (Nat.not_lt.mpr hk)
  · rcases List.mem_cons.mp ht with rfl | ht
    · exact Nat.lt_succ_self _
    · exact Nat.lt_succ_of_lt (h.handle t ht)
  · show (s.nextHandle :: s.handles.map Prod.fst).Nodup
    rw [List.nodup_cons]
    refine ⟨fun hmem => ?_, h.nodup⟩
    obtain ⟨t, ht, e⟩ := List.mem_map.mp hmem
    have := h.handle t ht
    omega

theorem MountInv.openMount (h : MountInv s) (hook : FsApi → Bool) (dir : Bool) :
    MountInv (s.openMount path hook dir err).1 := by
  unfold FsState.openMount
  rcases findMount_cases s path with hf | ⟨m, hm, hf⟩
  · rw [hf]
    exact h
  · rw [hf]
    dsimp only
    split
    · rw [h.put_taken hm]
      exact h
    split
    · rw [h.put_taken hm]
      exact h
    · exact h.opened hm dir

/-- one handle less -/
theorem countP_close {hs : List (Nat × Handle)} {h : Nat} {t : Handle} (hn : (hs.map Prod.fst).Nodup)
    (ht : (h, t) ∈ hs) (k : Nat) : hs.countP (fun u => u.2.mount = k) =
      (hs.filter (·.1 ≠ h)).countP (fun u => u.2.mount = k) + if k = t.mount then 1 else 0 := by
  induction hs with
  | nil => cases ht
  | cons u hs ih =>
    rw [List.map_cons, List.nodup_cons] at hn
    rcases List.mem_cons.mp ht with rfl | ht
    · have hall : hs.filter (·.1 ≠ h) = hs := by
        rw [List.filter_eq_self]
        intro w hw
        have : w.1 ≠ h := fun e => hn.1 (List.mem_map.mpr ⟨w, hw, e⟩)
        simpa using this
      rw [List.filter_cons_of_neg (by simp), hall, List.countP_cons]
      by_cases e : k = t.mount
      · simp [e]
      · simp [e, Ne.symm e]
    · have hne : u.1 ≠ h := fun e => hn.1 (List.mem_map.mpr ⟨(h, t), ht, e.symm⟩)
      rw [List.filter_cons_of_pos (by simpa using hne), List.countP_cons, List.countP_cons, ih hn.2 ht]
      lia

theorem MountInv.closeMount (h : MountInv s) {i : Nat} {t : Handle} (ht : (i, t) ∈ s.handles) (hook : FsApi → Bool) :
    MountInv (s.closeMount i t hook err).1 := by
  have hcount := countP_close h.nodup ht
  have hopen : 0 < openCount s t.mount := by
    rw [openCount, hcount, if_pos rfl]
    lia
  have hm := h.listed_of_open hopen
  obtain ⟨-, href, -, hfree⟩ := h.exact.listed _ hm
  unfold FsState.closeMount
  rw [if_neg (by lia)]
  split
  · exact h
  split
  · exact h
  dsimp only
  rw [putMount_listed (r := openCount s t.mount) hfree href (by lia)]
  refine ⟨⟨fun k hk => ?_, fun k hk hn => ?_, h.exact.wild⟩, h.lt, fun k hk => ?_, fun u hu => ?_, ?_⟩
  · obtain ⟨h1, h2, h3, h4⟩ := h.exact.listed k hk
    refine ⟨h1, ?_, h3, h4⟩
    show ((s.setRef t.mount _).mnt k).ref = (List.countP _ (s.handles.filter (·.1 ≠ i)) : Nat) + 1
    have hk' := hcount k
    change openCount s k = _ at hk'
    rw [mnt_setRef]
    split at hk'
    · rename_i e
      rw [if_pos e, ← e]
      lia
    · rename_i e
      rw [if_neg e]
      lia
  · obtain ⟨h1, h2, h3⟩ := h.exact.gone k hk hn
    refine ⟨?_, h2, h3⟩
    have hk' := hcount k
    change openCount s k = _ at hk'
    show List.countP _ (s.handles.filter (·.1 ≠ i)) = 0
    lia
  · obtain ⟨h1, h2, h3⟩ := h.fresh k hk
    refine ⟨?_, h2, h3⟩
    have hk' := hcount k
    change openCount s k = _ at hk'
    show List.countP _ (s.handles.filter (·.1 ≠ i)) = 0
    lia
  · exact h.handle u (List.mem_of_mem_filter hu)
  · exact h.nodup.sublist (List.filter_sublist.map _)

/-- a structure without handles is given up -/
theorem MountInv.fsUnmount (h : MountInv s) (hg : ∀ m, (s.findMount (tempPath path)).2 = some m → openCount s m = 0) :
    MountInv (s.fsUnmount path).1 := by
  unfold FsState.fsUnmount
  rcases findMount_cases s (tempPath path) with hf | ⟨m, hm, hf⟩
  · rw [hf]
    exact h
  rw [hf]
  dsimp only
  rw [h.put_taken hm]
  have hopen : openCount s m = 0 := hg m (by rw [hf])
  obtain ⟨hone, href, hun, hfree⟩ := h.exact.listed m hm
  have hnot : m ∉ s.mounts.erase m := by
    rw [← List.count_eq_zero, List.count_erase_self, hone]
  have hmem : ∀ k, k ≠ m → (k ∈ s.mounts.erase m ↔ k ∈ s.mounts) := fun k e => List.mem_erase_of_ne e
  unfold FsState.putMount
  rw [if_neg (by lia), if_pos (by lia)]
  refine ⟨⟨fun k hk => ?_, fun k hk hn => ?_, h.exact.wild⟩, fun k hk => h.lt k (List.mem_of_mem_erase hk), fun k hk => ?_,
    h.handle, h.nodup⟩
  · have e : k ≠ m := by
      rintro rfl
      exact hnot hk
    obtain ⟨h1, h2, h3, h4⟩ := h.exact.listed k (List.mem_of_mem_erase hk)
    refine ⟨?_, ?_, ?_, ?_⟩
    · show (s.mounts.erase m).count k = 1
      rw [List.count_erase_of_ne e, h1]
    · show ((s.setRef m 0).mnt k).ref = _
      rw [mnt_setRef, if_neg e, h2]
      rfl
    · show Function.update s.unmounts m _ k = 0
      rw [Function.update_of_ne e, h3]
    · show Function.update s.frees m _ k = 0
      rw [Function.update_of_ne e, h4]
  · by_cases e : k = m
    · subst e
      refine ⟨hopen, ?_, ?_⟩
      · show Function.update s.unmounts k _ k = 1
        rw [Function.update_self, hun]
      · show Function.update s.frees k _ k = 1
        rw [Function.update_self, hfree]
    · obtain ⟨h1, h2, h3⟩ := h.exact.gone k hk fun hk' => hn ((hmem k e).mpr hk')
      refine ⟨h1, ?_, ?_⟩
      · show Function.update s.unmounts m _ k = 1
        rw [Function.update_of_ne e, h2]
      · show Function.update s.frees m _ k = 1
        rw [Function.update_of_ne e, h3]
  · have e : k ≠ m := by
      rintro rfl
      have hlt := h.lt k hm
      have hk' : s.next ≤ k := hk
      lia
    obtain ⟨h1, h2, h3⟩ := h.fresh k hk
    refine ⟨h1, ?_, ?_⟩
    · show Function.update s.unmounts m _ k = 0
      rw [Function.update_of_ne e, h2]
    · show Function.update s.frees m _ k = 0
      rw [Function.update_of_ne e, h3]

theorem MountInv.mount (h : MountInv s) {device : Device} {api : FsApi} :
    MountInv (s.mount path device api err).1 := by
  have hnew : s.next ∉ s.mounts := fun hm => absurd (h.lt _ hm) (Nat.lt_irrefl _)
  obtain ⟨hz, hun, hfree⟩ := h.fresh s.next le_rfl
  have hadd : ∀ dev, MountInv { s with
      mnt := Function.update s.mnt s.next ⟨tempPath path, dev, 1, api⟩
      next := s.next + 1
      mounts := s.next :: s.mounts } := by
    intro dev
    refine ⟨⟨fun k hk => ?_, fun k hk hn => ?_, h.exact.wild⟩, fun k hk => ?_, fun k hk => h.fresh k (Nat.le_of_succ_le hk),
      h.handle, h.nodup⟩
    · rcases List.mem_cons.mp hk with rfl | hk
      · refine ⟨?_, ?_, hun, hfree⟩
        · rw [List.count_cons_self, List.count_eq_zero.mpr hnew]
        · show (Function.update s.mnt s.next _ s.next).ref = (openCount s s.next : Int) + 1
          rw [Function.update_self, hz]
          rfl
      · have e : k ≠ s.next := by
          rintro rfl
          exact hnew hk
        obtain ⟨h1, h2, h3⟩ := h.exact.listed k hk
        refine ⟨?_, ?_, h3⟩
        · rw [List.count_cons_of_ne (Ne.symm e), h1]
        · show (Function.update s.mnt s.next _ k).ref = (openCount s k : Int) + 1
          rw [Function.update_of_ne e, h2]
    · obtain ⟨e, hn⟩ := not_or.mp (List.mem_cons.not.mp hn)
      have hk' : k < s.next + 1 := hk
      exact h.exact.gone k (by lia) hn
    · show k < s.next + 1
      rcases List.mem_cons.mp hk with rfl | hk
      · exact Nat.lt_succ_self _
      · exact Nat.lt_succ_of_lt (h.lt k hk)
  unfold FsState.mount
  split
  · exact h
  rcases findMount_cases s (tempPath path) with hf | ⟨m, hm, hf⟩
  · rw [hf]
    cases device with
    | missing => exact h
    | none =>
      dsimp only
      split
      · exact h
      · exact hadd _
    | found =>
      dsimp only
      split
      · exact h
      · exact hadd _
  · rw [hf]
    dsimp only
    rw [h.put_taken hm]
    exact h

theorem MountInv.boot (h : FsBoot s) : MountInv s where
  exact := by
    refine ⟨fun m hm => ?_, fun m hm => ?_, h.wild⟩
    · rw [h.mounts] at hm
      cases hm
    · rw [h.next] at hm
      omega
  lt m hm := by
    rw [h.mounts] at hm
    cases hm
  fresh m _ := by
    refine ⟨?_, h.unmounts m, h.frees m⟩
    rw [openCount, h.handles]
    rfl
  handle t ht := by
    rw [h.handles] at ht
    cases ht
  nodup := by
    rw [h.handles]
    exact List.nodup_nil

theorem MountInv.step (h : MountInv s) {op : FsOp} (hg : UnmountGuard s op) (hs : fsStep s op = some s') :
    MountInv s' := by
  cases op with
  | mount path fs device err =>
    cases hs
    cases fs with
    | none => exact h
    | some api => exact h.mount
  | unmount path =>
    cases hs
    exact h.fsUnmount hg
  | openFile path err =>
    cases hs
    exact h.openMount _ _
  | createFile path err =>
    cases hs
    exact h.openMount _ _
  | openDir path err =>
    cases hs
    exact h.openMount _ _
  | removeFile path err =>
    cases hs
    unfold FsState.fsRemoveFile
    rw [h.useMount]
    exact h
  | makeDir path err =>
    cases hs
    unfold FsState.fsMakeDir
    rw [h.useMount]
    exact h
  | statFs path err =>
    cases hs
    unfold FsState.fsStatFs
    rw [h.useMount]
    exact h
  | close i err =>
    obtain ⟨t, ht, rfl⟩ := Option.map_eq_some_iff.mp hs
    have hmem : (i, t) ∈ s.handles := by
      obtain ⟨l, r, hsplit, -⟩ := List.lookup_eq_some_iff.mp ht
      rw [hsplit]
      simp
    split
    · exact h.closeMount hmem _
    · exact h.closeMount hmem _

/-- **Mounts.**  In runs that unmount only what has no handle open the counts are exact, and every structure that was
given up was so once, with nothing left that refers to it. -/
theorem mounts_exact (hr : fsSys.Run UnmountGuard s) : MountsExact s :=
  (hr.invariant (I := MountInv) (fun _ h0 => .boot h0) fun _ _ _ h hg hs => h.step hg hs).exact

end

/-! ## one mount -/

def noMounts : FsState := ⟨[], fun _ => ⟨[], false, 0, ⟨true, true, true, true, true, true⟩⟩, 0, [], 0, fun _ => 0,
  fun _ => 0, false⟩

theorem noMounts_boot : FsBoot noMounts := ⟨rfl, rfl, rfl, fun _ => rfl, fun _ => rfl, rfl⟩

def allApi : FsApi := ⟨true, true, true, true, true, true⟩

/-- the theorem after a mount, a file opened and closed, and an unmount -/
theorem mounts_exact_once : ∃ s,
    Machine.exec fsStep noMounts [.mount ['/', 'a'] (some allApi) .none 0, .openFile ['/', 'a', '/', 'b'] 0, .close 0 0,
      .unmount ['/', 'a', '/']] = some s ∧ MountsExact s ∧ s.frees 0 = 1 := by
  have h0 : fsSys.Run UnmountGuard noMounts := .init noMounts_boot
  refine ⟨_, rfl, mounts_exact (.step (a := .unmount ['/', 'a', '/']) (.step (a := .close 0 0)
    (.step (a := .openFile ['/', 'a', '/', 'b'] 0) (.step (a := .mount ['/', 'a'] (some allApi) .none 0) h0 trivial rfl)
      trivial rfl) trivial rfl) ?_ rfl), rfl⟩
  intro m hm
  cases hm
  rfl

/-- **Two unmounts with a file open.**  The second takes the handle's reference, and the structure is freed. -/
theorem mounts_exact_fails : ¬ ∀ s, fsSys.Reach s → MountsExact s := by
  intro h
  have hr : fsSys.Reach noMounts := .init noMounts_boot
  obtain ⟨s, hs, hcount, hmounts, hnext⟩ : ∃ s,
      Machine.exec fsStep noMounts [.mount ['/', 'a'] (some allApi) .none 0, .openFile ['/', 'a', '/', 'b'] 0,
        .unmount ['/', 'a'], .unmount ['/', 'a']] = some s ∧ openCount s 0 = 1 ∧ s.mounts = [] ∧ s.next = 1 :=
    ⟨_, rfl, rfl, rfl, rfl⟩
  have hgone := ((h s (hr.exec _ hs)).gone 0 (by omega) (by rw [hmounts]; exact List.not_mem_nil)).1
  omega

end LkHv.Fs
