import LkHv.Fs.Spifs
import Mathlib.Data.List.Nodup

/-!
# The memory filesystem (`lib/fs/memfs/memfs.c`)

A file is its address; an address is not given out twice, so that a file that was freed can be told from its
successor.  A use of a freed file, or of a null name, is no step.  What an allocation leaves in memory is part of each
call.

* `memfsCreate` to `memfsClosedir`   the source's;
* `memfsSys`                   any sequence of calls with the handles and the cursors that are held;
* `FileMap`, `FileMapStep`           a map from names to bytes, and what each call does to it;
* `MemfsWhen`                  the condition;
* `memfs_refines`              under it calls do what they do to the map, and listings are complete;
* `memfs_refines_fails`        not so for a read of a file that was removed.
-/

namespace LkHv.Fs

def FS_MAX_FILE_LEN : Nat := 64
def ULONG_MAX : Nat := 2 ^ 64 - 1

/-- `memfs_file_t`; the name is null when `strdup` found no memory, and the length is that of the data -/
structure MemFile where
  name : Option (List UInt8)
  bytes : List UInt8
  freed : Bool

/-- `struct dircookie`, and for the proof the files that were there at the start and those listed since -/
structure DirCookie where
  next : Option Nat
  start : List Nat
  seen : List Nat

/-- `memfs_t`, the files by their addresses, and the handles and the cursors that are held -/
structure Memfs where
  obj : Nat → MemFile
  files : List Nat
  fresh : Nat
  handles : List Nat
  dirs : Nat → Option DirCookie
  freshDir : Nat

inductive MemfsRet
  | err (e : Int)
  | done
  | file (f : Nat)
  | dir (d : Nat)
  | data (b : List UInt8)
  | count (n : Nat)
  | entry (name : List UInt8)
  deriving DecidableEq

def Memfs.setObj (s : Memfs) (f : Nat) (file : MemFile) : Memfs := { s with obj := Function.update s.obj f file }

/-- the file at an address; none for a use after it was freed -/
def Memfs.deref (s : Memfs) (f : Nat) : Option MemFile := if (s.obj f).freed then none else some (s.obj f)

/-- `find_file` -/
def Memfs.findFile (s : Memfs) (name : List UInt8) : List Nat → Option (Option Nat)
  | [] => some none
  | f :: fs =>
    (s.deref f).bind fun file => file.name.bind fun n => if n = name then some (some f) else s.findFile name fs

/-- `memfs_create`; `room` says whether `malloc` and `calloc` succeed, `strdup` whether that does -/
def memfsCreate (s : Memfs) (name : List UInt8) (len : Nat) (room strdup : Bool) : Option (Memfs × MemfsRet) :=
  if len ≥ ULONG_MAX then some (s, .err ERR_NO_MEMORY)
  else
    let name := trimName name
    if 47 ∈ name then some (s, .err ERR_NOT_SUPPORTED)
    else (s.findFile name s.files).map fun found =>
      if found.isSome then (s, .err ERR_ALREADY_EXISTS)
      else if ¬ room then (s, .err ERR_NO_MEMORY)
      else
        let file : MemFile := ⟨if strdup then some name else none, List.replicate len 0, false⟩
        ({ s.setObj s.fresh file with
            files := s.files ++ [s.fresh]
            fresh := s.fresh + 1
            handles := s.fresh :: s.handles }, .file s.fresh)

/-- `memfs_open` -/
def memfsOpen (s : Memfs) (name : List UInt8) : Option (Memfs × MemfsRet) :=
  (s.findFile (trimName name) s.files).map fun found =>
    match found with
    | none => (s, .err ERR_NOT_FOUND)
    | some f => ({ s with handles := f :: s.handles }, .file f)

/-- `memfs_remove` -/
def memfsRemove (s : Memfs) (name : List UInt8) : Option (Memfs × MemfsRet) :=
  (s.findFile (trimName name) s.files).map fun found =>
    match found with
    | none => (s, .err ERR_NOT_FOUND)
    | some f => ({ s.setObj f { s.obj f with freed := true } with files := s.files.erase f }, .done)

/-- `memfs_close` -/
def memfsClose (s : Memfs) (f : Nat) : Option (Memfs × MemfsRet) :=
  some ({ s with handles := s.handles.erase f }, .done)

/-- the value of an `off_t` -/
def offT (n : Nat) : Int := if n < 2 ^ 63 then n else n - 2 ^ 64

/-- `memfs_read`; none also for a copy from behind the data -/
def memfsRead (s : Memfs) (f : Nat) (off : Int) (len : Nat) : Option (Memfs × MemfsRet) :=
  if off < 0 then some (s, .err ERR_INVALID_ARGS)
  else (s.deref f).bind fun file =>
    let size := file.bytes.length
    let len :=
      if off ≥ offT size then 0
      else if (off.toNat + len) % 2 ^ 64 > size then size - off.toNat
      else len
    if len = 0 ∨ off.toNat + len ≤ size then some (s, .data ((file.bytes.drop off.toNat).take len)) else none

/-- `memfs_truncate`; `room` says whether `realloc` succeeds -/
def memfsTruncate (s : Memfs) (f : Nat) (len : Nat) (room : Bool) : Option (Memfs × MemfsRet) :=
  (s.deref f).bind fun file =>
    if len > file.bytes.length then some (s, .err ERR_INVALID_ARGS)
    else if ¬ room then some (s, .err ERR_NO_MEMORY)
    else some (s.setObj f { file with bytes := file.bytes.take len }, .done)

/-- `memcpy` to an offset -/
def memcpyTo (b : List UInt8) (off : Nat) (data : List UInt8) : List UInt8 :=
  b.take off ++ data ++ b.drop (off + data.length)

/-- `memfs_write`; `junk` is what `realloc` leaves behind the old data -/
def memfsWrite (s : Memfs) (f : Nat) (off : Int) (data : List UInt8) (room : Bool) (junk : Nat → UInt8) :
    Option (Memfs × MemfsRet) :=
  if off < 0 then some (s, .err ERR_INVALID_ARGS)
  else (s.deref f).bind fun file =>
    let size := file.bytes.length
    let stop := (off.toNat + data.length) % 2 ^ 64
    if stop > size ∧ ¬ room then some (s, .err ERR_NO_MEMORY)
    else
      let bytes := file.bytes ++ (List.range (stop - size)).map fun i => junk (size + i)
      if data = [] ∨ off.toNat + data.length ≤ bytes.length then
        some (s.setObj f { file with bytes := memcpyTo bytes off.toNat data }, .count data.length)
      else none

/-- `memfs_opendir` -/
def memfsOpendir (s : Memfs) (name : List UInt8) (room : Bool) : Option (Memfs × MemfsRet) :=
  if trimName name ≠ [] then some (s, .err ERR_NOT_FOUND)
  else if ¬ room then some (s, .err ERR_NO_MEMORY)
  else
    some ({ s with
      dirs := Function.update s.dirs s.freshDir (some ⟨s.files.head?, s.files, []⟩)
      freshDir := s.freshDir + 1 }, .dir s.freshDir)

/-- `list_next` -/
def listNext (l : List Nat) (f : Nat) : Option Nat := ((l.dropWhile (· ≠ f)).drop 1).head?

/-- `memfs_readdir`; `ent` says whether there is a place for the entry -/
def memfsReaddir (s : Memfs) (d : Nat) (ent : Bool) : Option (Memfs × MemfsRet) :=
  if ¬ ent then some (s, .err ERR_INVALID_ARGS)
  else (s.dirs d).bind fun c =>
    match c.next with
    | none => some (s, .err ERR_NOT_FOUND)
    | some f =>
      (s.deref f).bind fun file => file.name.map fun n =>
        ({ s with dirs := Function.update s.dirs d (some ⟨listNext s.files f, c.start, f :: c.seen⟩) },
          .entry (n.take (FS_MAX_FILE_LEN - 1)))

/-- `memfs_closedir` -/
def memfsClosedir (s : Memfs) (d : Nat) : Option (Memfs × MemfsRet) :=
  some ({ s with dirs := Function.update s.dirs d none }, .done)

inductive MemfsOp
  | create (name : List UInt8) (len : Nat) (room strdup : Bool)
  | open (name : List UInt8)
  | remove (name : List UInt8)
  | close (f : Nat)
  | read (f : Nat) (off : Int) (len : Nat)
  | truncate (f : Nat) (len : Nat) (room : Bool)
  | write (f : Nat) (off : Int) (data : List UInt8) (room : Bool) (junk : Nat → UInt8)
  | opendir (name : List UInt8) (room : Bool)
  | readdir (d : Nat) (ent : Bool)
  | closedir (d : Nat)

def memfsStep (s : Memfs) : MemfsOp → Option (Memfs × MemfsRet)
  | .create name len room strdup => memfsCreate s name len room strdup
  | .open name => memfsOpen s name
  | .remove name => memfsRemove s name
  | .close f => memfsClose s f
  | .read f off len => memfsRead s f off len
  | .truncate f len room => memfsTruncate s f len room
  | .write f off data room junk => memfsWrite s f off data room junk
  | .opendir name room => memfsOpendir s name room
  | .readdir d ent => memfsReaddir s d ent
  | .closedir d => memfsClosedir s d

/-- a call is made with a handle or a cursor that is held -/
def MemfsHeld (s : Memfs) : MemfsOp → Prop
  | .close f | .read f _ _ | .truncate f _ _ | .write f _ _ _ _ => f ∈ s.handles
  | .readdir d _ | .closedir d => (s.dirs d).isSome
  | _ => True

/-- a filesystem that was mounted -/
def memfsMount : Memfs := ⟨fun _ => ⟨none, [], true⟩, [], 0, [], fun _ => none, 0⟩

/-- any sequence of calls -/
def memfsSys : Machine Memfs MemfsOp where
  init s := s = memfsMount
  step s op s' := MemfsHeld s op ∧ ∃ r, memfsStep s op = some (s', r)

/-! ## the property -/

/-- the bytes of each name, and the names that handles are for -/
@[ext] structure FileMap where
  bytes : List UInt8 → Option (List UInt8)
  name : Nat → Option (List UInt8)

namespace FileMap

def set (a : FileMap) (n : List UInt8) (b : Option (List UInt8)) : FileMap :=
  { a with bytes := Function.update a.bytes n b }

/-- a handle is for a file that is there -/
def At (a : FileMap) (f : Nat) (n : List UInt8) (b : List UInt8) : Prop := a.name f = some n ∧ a.bytes n = some b

/-- the bytes after a write: what lies between the old end and the write is zero -/
def written (b : List UInt8) (off : Nat) (data : List UInt8) : List UInt8 :=
  memcpyTo (b ++ List.replicate (off + data.length - b.length) 0) off data

end FileMap

/-- what a call does to the map, and what it returns -/
def FileMapStep (a : FileMap) : MemfsOp → MemfsRet → FileMap → Prop
  | .create name len room _, r, a' =>
    let n := trimName name
    a' = a ∧ (r = .err ERR_NO_MEMORY ∧ (len ≥ ULONG_MAX ∨ room = false) ∨ r = .err ERR_NOT_SUPPORTED ∧ 47 ∈ n ∨
        r = .err ERR_ALREADY_EXISTS ∧ a.bytes n ≠ none) ∨
      a.bytes n = none ∧ ∃ f, r = .file f ∧ a.name f = none ∧
        a' = { a.set n (some (List.replicate len 0)) with name := Function.update a.name f (some n) }
  | .open name, r, a' =>
    let n := trimName name
    a' = a ∧ (r = .err ERR_NOT_FOUND ∧ a.bytes n = none ∨ ∃ f b, r = .file f ∧ a.At f n b)
  | .remove name, r, a' =>
    let n := trimName name
    a' = a ∧ r = .err ERR_NOT_FOUND ∧ a.bytes n = none ∨ a.bytes n ≠ none ∧ r = .done ∧ a' = a.set n none
  | .close _, r, a' => a' = a ∧ r = .done
  | .read f off len, r, a' =>
    a' = a ∧ (off < 0 ∧ r = .err ERR_INVALID_ARGS ∨
      0 ≤ off ∧ ∃ n b, a.At f n b ∧ r = .data ((b.drop off.toNat).take len))
  | .truncate f len room, r, a' => ∃ n b, a.At f n b ∧
      (b.length < len ∧ r = .err ERR_INVALID_ARGS ∧ a' = a ∨ room = false ∧ r = .err ERR_NO_MEMORY ∧ a' = a ∨
        len ≤ b.length ∧ r = .done ∧ a' = a.set n (some (b.take len)))
  | .write f off data room _, r, a' =>
    off < 0 ∧ r = .err ERR_INVALID_ARGS ∧ a' = a ∨
      0 ≤ off ∧ ∃ n b, a.At f n b ∧ (b.length < off.toNat + data.length ∧ room = false ∧ r = .err ERR_NO_MEMORY ∧ a' = a ∨
        r = .count data.length ∧ a' = a.set n (some (FileMap.written b off.toNat data)))
  | .opendir name room, r, a' =>
    a' = a ∧ (r = .err ERR_NOT_FOUND ∧ trimName name ≠ [] ∨ r = .err ERR_NO_MEMORY ∧ room = false ∨ ∃ d, r = .dir d)
  | .readdir _ ent, r, a' =>
    a' = a ∧ (r = .err ERR_INVALID_ARGS ∧ ent = false ∨ r = .err ERR_NOT_FOUND ∨ ∃ n, r = .entry n ∧ a.bytes n ≠ none)
  | .closedir _, r, a' => a' = a ∧ r = .done

/-- the map that a filesystem stands for -/
def Memfs.fileMap (s : Memfs) : FileMap where
  bytes n := (s.files.find? fun f => (s.obj f).name = some n).map fun f => (s.obj f).bytes
  name f := (s.obj f).name

/-- no file is listed twice, and when a listing is at its end it has every file that was there all the time -/
def MemfsListed (s : Memfs) : Prop :=
  ∀ d c, s.dirs d = some c → c.seen.Nodup ∧ (c.next = none → ∀ f ∈ c.start, f ∈ s.files → f ∈ c.seen)

/-! ## the condition -/

/-- Handles and cursors that are used are at files that were not removed, the bytes that `realloc` leaves between
the old end and a write happen to be zero, `strdup` succeeds, a listed name has its place in the entry, and sizes do
not wrap around. -/
def MemfsWhen (s : Memfs) : MemfsOp → Prop
  | .create _ len room strdup => room = true → len < 2 ^ 63 ∧ strdup = true
  | .read f off len => 0 ≤ off → f ∈ s.files ∧ off.toNat + len < 2 ^ 64
  | .truncate f _ _ => f ∈ s.files
  | .write f off data room junk => 0 ≤ off → f ∈ s.files ∧ off.toNat + data.length < 2 ^ 64 ∧
      (room = true → off.toNat + data.length < 2 ^ 63 ∧ ∀ i, (s.obj f).bytes.length ≤ i → i < off.toNat → junk i = 0)
  | .readdir d ent => ent = true → ∀ c f, s.dirs d = some c → c.next = some f →
      f ∈ s.files ∧ ∀ n, (s.obj f).name = some n → n.length < FS_MAX_FILE_LEN
  | _ => True

/-! ## the invariant -/

/-- what a listing has shown and has still to show -/
structure DirCookie.Ok (s : Memfs) (c : DirCookie) : Prop where
  nodup : c.seen.Nodup
  start : ∀ f ∈ c.start, f < s.fresh
  seen : ∀ f ∈ c.seen, f < s.fresh
  done : c.next = none → ∀ f ∈ c.start, f ∈ s.files → f ∈ c.seen
  next : ∀ g, c.next = some g → g < s.fresh ∧ (g ∈ s.files → ∃ pre post, s.files = pre ++ g :: post ∧
    (∀ f ∈ c.start, f ∈ s.files → f ∈ c.seen ∨ f ∈ g :: post) ∧ ∀ f ∈ c.seen, f ∉ g :: post)

structure MemfsOk (s : Memfs) : Prop where
  nodup : s.files.Nodup
  lt : ∀ f ∈ s.files, f < s.fresh
  alive : ∀ f ∈ s.files, (s.obj f).freed = false
  named : ∀ f ∈ s.files, (s.obj f).name ≠ none
  names : ∀ f ∈ s.files, ∀ g ∈ s.files, (s.obj f).name = (s.obj g).name → f = g
  size : ∀ f ∈ s.files, (s.obj f).bytes.length < 2 ^ 63
  unnamed : ∀ f, s.fresh ≤ f → (s.obj f).name = none
  dir : ∀ d c, s.dirs d = some c → c.Ok s

section
variable {s s' : Memfs} {f g : Nat} {n : List UInt8}

theorem memfsMount_ok : MemfsOk memfsMount where
  nodup := .nil
  lt f hf := by cases hf
  alive f hf := by cases hf
  named f hf := by cases hf
  names f hf := by cases hf
  size f hf := by cases hf
  unnamed _ _ := rfl
  dir d c hc := by cases hc

theorem MemfsOk.deref (h : MemfsOk s) (hf : f ∈ s.files) : s.deref f = some (s.obj f) :=
  if_neg (by rw [h.alive f hf]; exact Bool.false_ne_true)

/-- `find_file` finds the file of a name -/
theorem MemfsOk.findFile (h : MemfsOk s) (n : List UInt8) :
    s.findFile n s.files = some (s.files.find? fun f => (s.obj f).name = some n) := by
  suffices hl : ∀ l, (∀ f ∈ l, f ∈ s.files) →
      s.findFile n l = some (l.find? fun f => (s.obj f).name = some n) from hl _ fun _ hf => hf
  intro l
  induction l with
  | nil => exact fun _ => rfl
  | cons f fs ih =>
    intro hl
    have hf := hl f (.head _)
    obtain ⟨m, hm⟩ := Option.ne_none_iff_exists'.mp (h.named f hf)
    rw [Memfs.findFile, h.deref hf, Option.bind_some, hm, Option.bind_some, List.find?_cons, hm]
    by_cases e : m = n
    · rw [if_pos e, e]
      simp
    · rw [if_neg e, ih fun g hg => hl g (.tail _ hg)]
      simp [e]

theorem MemfsOk.find_some (h : MemfsOk s) (hf : f ∈ s.files) (hn : (s.obj f).name = some n) :
    (s.files.find? fun f => (s.obj f).name = some n) = some f := by
  cases hg : s.files.find? fun f => (s.obj f).name = some n with
  | none => exact absurd hn (by simpa using List.find?_eq_none.mp hg f hf)
  | some g =>
    have h1 : (s.obj g).name = some n := by simpa using List.find?_some hg
    rw [h.names g (List.mem_of_find?_eq_some hg) f hf (h1.trans hn.symm)]

/-- the file of a name, or that there is none -/
theorem MemfsOk.find_cases (h : MemfsOk s) (n : List UInt8) :
    (∃ f ∈ s.files, (s.obj f).name = some n ∧ s.findFile n s.files = some (some f)) ∨
      (∀ f ∈ s.files, (s.obj f).name ≠ some n) ∧ s.findFile n s.files = some none := by
  rw [h.findFile]
  cases hg : s.files.find? fun f => (s.obj f).name = some n with
  | none => exact .inr ⟨fun f hf => by simpa using List.find?_eq_none.mp hg f hf, rfl⟩
  | some f => exact .inl ⟨f, List.mem_of_find?_eq_some hg, by simpa using List.find?_some hg, rfl⟩

theorem MemfsOk.bytes_some (h : MemfsOk s) (hf : f ∈ s.files) (hn : (s.obj f).name = some n) :
    s.fileMap.bytes n = some (s.obj f).bytes := by
  unfold Memfs.fileMap
  dsimp only
  rw [h.find_some hf hn]
  rfl

theorem fileMap_bytes_none (hn : ∀ f ∈ s.files, (s.obj f).name ≠ some n) : s.fileMap.bytes n = none := by
  unfold Memfs.fileMap
  dsimp only
  rw [List.find?_eq_none.mpr fun f hf => by simpa using hn f hf]
  rfl

/-- the handle of a file that is there -/
theorem MemfsOk.at (h : MemfsOk s) (hf : f ∈ s.files) : ∃ n, s.fileMap.At f n (s.obj f).bytes := by
  obtain ⟨n, hn⟩ := Option.ne_none_iff_exists'.mp (h.named f hf)
  exact ⟨n, hn, h.bytes_some hf hn⟩

/-! ## new bytes for a file -/

theorem MemfsOk.setBytes (h : MemfsOk s) (hf : f ∈ s.files) (hn : (s.obj f).name = some n) {b : List UInt8}
    (hb : b.length < 2 ^ 63) : MemfsOk (s.setObj f { s.obj f with bytes := b }) ∧
      (s.setObj f { s.obj f with bytes := b }).fileMap = s.fileMap.set n (some b) := by
  have hobj : ∀ g, ((s.setObj f { s.obj f with bytes := b }).obj g).name = (s.obj g).name ∧
      ((s.setObj f { s.obj f with bytes := b }).obj g).freed = (s.obj g).freed ∧
      ((s.setObj f { s.obj f with bytes := b }).obj g).bytes = if g = f then b else (s.obj g).bytes := by
    intro g
    show (Function.update s.obj f _ g).name = _ ∧ (Function.update s.obj f _ g).freed = _ ∧
      (Function.update s.obj f _ g).bytes = _
    by_cases e : g = f
    · rw [e, Function.update_self, if_pos rfl]
      exact ⟨rfl, rfl, rfl⟩
    · rw [Function.update_of_ne e, if_neg e]
      exact ⟨rfl, rfl, rfl⟩
  refine ⟨⟨h.nodup, h.lt, fun g hg => ?_, fun g hg => ?_, fun g hg k hk e => ?_, fun g hg => ?_, fun g hg => ?_,
    fun d c hc => ?_⟩, ?_⟩
  · rw [(hobj g).2.1]
    exact h.alive g hg
  · rw [(hobj g).1]
    exact h.named g hg
  · rw [(hobj g).1, (hobj k).1] at e
    exact h.names g hg k hk e
  · rw [(hobj g).2.2]
    split
    · exact hb
    · exact h.size g hg
  · rw [(hobj g).1]
    exact h.unnamed g hg
  · have hok := h.dir d c hc
    exact ⟨hok.nodup, hok.start, hok.seen, hok.done, hok.next⟩
  · apply FileMap.ext
    · funext m
      show (s.files.find? fun g => ((s.setObj f { s.obj f with bytes := b }).obj g).name = some m).map _ =
        Function.update s.fileMap.bytes n (some b) m
      simp only [(hobj _).1, (hobj _).2.2]
      by_cases e : m = n
      · rw [e, Function.update_self, h.find_some hf hn]
        simp
      · rw [Function.update_of_ne e]
        show _ = (s.files.find? fun g => (s.obj g).name = some m).map _
        cases hg : s.files.find? fun g => (s.obj g).name = some m with
        | none => rfl
        | some g =>
          have h1 : (s.obj g).name = some m := by simpa using List.find?_some hg
          have hgf : g ≠ f := by
            rintro rfl
            exact e (Option.some.inj (h1.symm.trans hn))
          show some (if g = f then b else (s.obj g).bytes) = some (s.obj g).bytes
          rw [if_neg hgf]
    · funext g
      exact (hobj g).1

/-- the bytes of a name, given the files -/
theorem MemfsOk.bytes_eq (h : MemfsOk s) (n : List UInt8) (b : Option (List UInt8))
    (hsome : ∀ f ∈ s.files, (s.obj f).name = some n → b = some (s.obj f).bytes)
    (hnone : (∀ f ∈ s.files, (s.obj f).name ≠ some n) → b = none) : s.fileMap.bytes n = b := by
  rcases h.find_cases n with ⟨f, hf, hn, -⟩ | ⟨hno, -⟩
  · rw [h.bytes_some hf hn, hsome f hf hn]
  · rw [fileMap_bytes_none hno, hnone hno]

/-! ## listings -/

/-- a file behind the others does not disturb a listing -/
theorem DirCookie.Ok.append {c : DirCookie} (h : c.Ok s) (hfiles : s'.files = s.files ++ [s.fresh])
    (hfresh : s'.fresh = s.fresh + 1) : c.Ok s' := by
  have hold : ∀ f ∈ c.start, f ∈ s'.files → f ∈ s.files := by
    intro f hf hm
    rw [hfiles, List.mem_append, List.mem_singleton] at hm
    have := h.start f hf
    rcases hm with hm | rfl
    · exact hm
    · omega
  refine ⟨h.nodup, fun f hf => ?_, fun f hf => ?_, fun hnone f hf hm => h.done hnone f hf (hold f hf hm),
    fun g hg => ?_⟩
  · have := h.start f hf
    omega
  · have := h.seen f hf
    omega
  · obtain ⟨hlt, hnext⟩ := h.next g hg
    refine ⟨by omega, fun hm => ?_⟩
    have hmem : g ∈ s.files := by
      rw [hfiles, List.mem_append, List.mem_singleton] at hm
      rcases hm with hm | rfl
      · exact hm
      · omega
    obtain ⟨pre, post, e, hleft, hseen⟩ := hnext hmem
    refine ⟨pre, post ++ [s.fresh], by rw [hfiles, e, List.append_assoc]; rfl, fun f hf hm => ?_, fun f hf hm => ?_⟩
    · exact (hleft f hf (hold f hf hm)).imp_right fun hm => @List.mem_append_left _ _ (g :: post) [s.fresh] hm
    · rw [← List.cons_append, List.mem_append, List.mem_singleton] at hm
      rcases hm with hm | rfl
      · exact hseen f hf hm
      · exact absurd (h.seen _ hf) (Nat.lt_irrefl _)

/-- a file that leaves does not disturb a listing that is not at it -/
theorem DirCookie.Ok.erase {c : DirCookie} (h : c.Ok s) (hnodup : s.files.Nodup) (hfiles : s'.files = s.files.erase f)
    (hfresh : s'.fresh = s.fresh) : c.Ok s' := by
  have hfilter : s'.files = s.files.filter (· ≠ f) := by
    rw [hfiles, hnodup.erase_eq_filter]
    exact List.filter_congr fun g _ => by rw [Bool.eq_iff_iff, bne_iff_ne, decide_eq_true_eq]
  have hmem : ∀ g, g ∈ s'.files ↔ g ∈ s.files ∧ g ≠ f := by
    intro g
    rw [hfilter, List.mem_filter, decide_eq_true_eq]
  refine ⟨h.nodup, fun g hg => ?_, fun g hg => ?_, fun hnone g hg hm => h.done hnone g hg ((hmem g).mp hm).1,
    fun g hg => ?_⟩
  · rw [hfresh]
    exact h.start g hg
  · rw [hfresh]
    exact h.seen g hg
  · obtain ⟨hlt, hnext⟩ := h.next g hg
    refine ⟨by rw [hfresh]; exact hlt, fun hm => ?_⟩
    obtain ⟨hm, hne⟩ := (hmem g).mp hm
    obtain ⟨pre, post, e, hleft, hseen⟩ := hnext hm
    have hcons : (g :: post).filter (· ≠ f) = g :: post.filter (· ≠ f) :=
      List.filter_cons_of_pos (by rw [decide_eq_true_eq]; exact hne)
    refine ⟨pre.filter (· ≠ f), post.filter (· ≠ f), ?_, fun k hk hm => ?_, fun k hk hm => ?_⟩
    · rw [hfilter, e, List.filter_append, hcons]
    · obtain ⟨hm, hkf⟩ := (hmem k).mp hm
      refine (hleft k hk hm).imp_right fun hm => ?_
      rw [← hcons, List.mem_filter, decide_eq_true_eq]
      exact ⟨hm, hkf⟩
    · rw [← hcons, List.mem_filter] at hm
      exact hseen k hk hm.1

theorem DirCookie.Ok.congr {c : DirCookie} (h : c.Ok s) (hfiles : s'.files = s.files) (hfresh : s'.fresh = s.fresh) :
    c.Ok s' :=
  ⟨h.nodup, by rw [hfresh]; exact h.start, by rw [hfresh]; exact h.seen, by rw [hfiles]; exact h.done,
    by rw [hfiles, hfresh]; exact h.next⟩

/-- the node behind `f` -/
theorem listNext_append {pre post : List Nat} (h : f ∉ pre) : listNext (pre ++ f :: post) f = post.head? := by
  have hdrop : (pre ++ f :: post).dropWhile (· ≠ f) = f :: post := by
    rw [List.dropWhile_append_of_pos fun g hg => ?_]
    · simp
    · rw [decide_eq_true_eq]
      rintro rfl
      exact h hg
  unfold listNext
  rw [hdrop]
  rfl

/-- a cursor that is at a file moves on -/
theorem DirCookie.Ok.advance {c : DirCookie} (h : c.Ok s) (hs : MemfsOk s) (hnext : c.next = some f)
    (hf : f ∈ s.files) : (⟨listNext s.files f, c.start, f :: c.seen⟩ : DirCookie).Ok s := by
  obtain ⟨hlt, hn⟩ := h.next f hnext
  obtain ⟨pre, post, e, hleft, hseen⟩ := hn hf
  have hnd := hs.nodup
  rw [e, List.nodup_append, List.nodup_cons] at hnd
  obtain ⟨-, ⟨hpost, -⟩, hdisj⟩ := hnd
  have hlist : listNext s.files f = post.head? := by
    rw [e]
    exact listNext_append fun hm => hdisj f hm f (.head _) rfl
  have hcover : ∀ g ∈ c.start, g ∈ s.files → g ∈ f :: c.seen ∨ g ∈ post := by
    intro g hg hm
    rcases hleft g hg hm with hm | hm
    · exact .inl (.tail _ hm)
    · exact (List.mem_cons.mp hm).imp_left fun hgf => by rw [hgf]; exact .head _
  rw [hlist]
  refine ⟨List.nodup_cons.mpr ⟨fun hm => hseen f hm (.head _), h.nodup⟩, h.start, fun g hg => ?_,
    fun hnone g hg hm => ?_, fun g hg => ?_⟩
  · rcases List.mem_cons.mp hg with rfl | hg
    · exact hlt
    · exact h.seen g hg
  · have hnil : post = [] := List.head?_eq_none_iff.mp hnone
    exact (hcover g hg hm).elim id fun hm => absurd hm (by rw [hnil]; exact List.not_mem_nil)
  · obtain ⟨rest, hrest⟩ := List.head?_eq_some_iff.mp hg
    subst hrest
    refine ⟨hs.lt g (by rw [e]; simp), fun _ =>
      ⟨pre ++ [f], rest, by rw [e, List.append_assoc]; rfl, hcover, fun k hk hm => ?_⟩⟩
    rcases List.mem_cons.mp hk with rfl | hk
    · exact hpost hm
    · exact hseen k hk (.tail _ hm)

/-! ## the calls -/

/-- a call does what it does to the map -/
def Simulates (s : Memfs) (op : MemfsOp) : Prop :=
  ∃ s' r, memfsStep s op = some (s', r) ∧ MemfsOk s' ∧ FileMapStep s.fileMap op r s'.fileMap

/-- a state that differs in its handles -/
theorem MemfsOk.handles (h : MemfsOk s) (l : List Nat) : MemfsOk { s with handles := l } :=
  ⟨h.nodup, h.lt, h.alive, h.named, h.names, h.size, h.unnamed, fun d c hc => (h.dir d c hc).congr rfl rfl⟩

/-- a state that differs in one cursor -/
theorem MemfsOk.cursor (h : MemfsOk s) {c : Option DirCookie} (hc : ∀ c', c = some c' → c'.Ok s) (d k : Nat) :
    MemfsOk { s with dirs := Function.update s.dirs d c, freshDir := k } := by
  refine ⟨h.nodup, h.lt, h.alive, h.named, h.names, h.size, h.unnamed, fun d' c' hc' => ?_⟩
  have hc' : Function.update s.dirs d c d' = some c' := hc'
  refine DirCookie.Ok.congr (s := s) ?_ rfl rfl
  by_cases e : d' = d
  · rw [e, Function.update_self] at hc'
    exact hc c' hc'
  · rw [Function.update_of_ne e] at hc'
    exact h.dir d' c' hc'

/-- a file behind the others -/
theorem MemfsOk.newFile (h : MemfsOk s) (hno : ∀ f ∈ s.files, (s.obj f).name ≠ some n) {b : List UInt8}
    (hb : b.length < 2 ^ 63) (l : List Nat) (ht : s' = { s.setObj s.fresh ⟨some n, b, false⟩ with
      files := s.files ++ [s.fresh], fresh := s.fresh + 1, handles := l }) : MemfsOk s' ∧
      s'.fileMap = { s.fileMap.set n (some b) with name := Function.update s.fileMap.name s.fresh (some n) } := by
  have hfiles : s'.files = s.files ++ [s.fresh] := by rw [ht]
  have hfresh : s'.fresh = s.fresh + 1 := by rw [ht]
  have hnew : s'.obj s.fresh = ⟨some n, b, false⟩ := by
    rw [ht]
    exact Function.update_self ..
  have hobj : ∀ g, g ≠ s.fresh → s'.obj g = s.obj g := by
    intro g hg
    rw [ht]
    exact Function.update_of_ne hg ..
  have hold : ∀ g ∈ s.files, s'.obj g = s.obj g := fun g hg => hobj g (Nat.ne_of_lt (h.lt g hg))
  have hmem : ∀ g, g ∈ s'.files ↔ g ∈ s.files ∨ g = s.fresh := by
    intro g
    rw [hfiles, List.mem_append, List.mem_singleton]
  have hok : MemfsOk s' := by
    refine ⟨?_, fun g hg => ?_, fun g hg => ?_, fun g hg => ?_, fun g hg k hk e => ?_, fun g hg => ?_,
      fun g hg => ?_, fun d c hc => ?_⟩
    · rw [hfiles, List.nodup_append]
      refine ⟨h.nodup, List.nodup_singleton _, fun g hg k hk e => ?_⟩
      rw [List.mem_singleton.mp hk] at e
      exact Nat.ne_of_lt (h.lt g hg) e
    · rw [hfresh]
      rcases (hmem g).mp hg with hg | rfl
      · exact Nat.lt_succ_of_lt (h.lt g hg)
      · exact Nat.lt_succ_self _
    · rcases (hmem g).mp hg with hg | rfl
      · rw [hold g hg]
        exact h.alive g hg
      · rw [hnew]
    · rcases (hmem g).mp hg with hg | rfl
      · rw [hold g hg]
        exact h.named g hg
      · rw [hnew]
        exact Option.some_ne_none _
    · rcases (hmem g).mp hg with hg | rfl
      · rcases (hmem k).mp hk with hk | rfl
        · rw [hold g hg, hold k hk] at e
          exact h.names g hg k hk e
        · rw [hold g hg, hnew] at e
          exact absurd e (hno g hg)
      · rcases (hmem k).mp hk with hk | rfl
        · rw [hold k hk, hnew] at e
          exact absurd e.symm (hno k hk)
        · rfl
    · rcases (hmem g).mp hg with hg | rfl
      · rw [hold g hg]
        exact h.size g hg
      · rw [hnew]
        exact hb
    · rw [hfresh] at hg
      rw [hobj g (by omega)]
      exact h.unnamed g (by omega)
    · exact (h.dir d c (by rw [ht] at hc; exact hc)).append hfiles hfresh
  refine ⟨hok, FileMap.ext (funext fun m => ?_) (funext fun g => ?_)⟩
  · show s'.fileMap.bytes m = Function.update s.fileMap.bytes n (some b) m
    refine hok.bytes_eq m _ (fun g hg hm => ?_) fun hnone => ?_
    · rcases (hmem g).mp hg with hg | rfl
      · rw [hold g hg] at hm ⊢
        have hne : m ≠ n := by
          rintro rfl
          exact hno g hg hm
        rw [Function.update_of_ne hne, h.bytes_some hg hm]
      · rw [hnew] at hm ⊢
        cases hm
        exact Function.update_self ..
    · have hne : m ≠ n := by
        rintro rfl
        exact hnone s.fresh ((hmem _).mpr (.inr rfl)) (by rw [hnew])
      rw [Function.update_of_ne hne]
      refine fileMap_bytes_none fun g hg => ?_
      rw [← hold g hg]
      exact hnone g ((hmem g).mpr (.inl hg))
  · show (s'.obj g).name = Function.update s.fileMap.name s.fresh (some n) g
    by_cases e : g = s.fresh
    · rw [e, hnew, Function.update_self]
    · rw [hobj g e, Function.update_of_ne e]
      rfl

/-- a file leaves -/
theorem MemfsOk.dropFile (h : MemfsOk s) (hf : f ∈ s.files) (hn : (s.obj f).name = some n)
    (ht : s' = { s.setObj f { s.obj f with freed := true } with files := s.files.erase f }) : MemfsOk s' ∧
      s'.fileMap = s.fileMap.set n none := by
  have hfiles : s'.files = s.files.erase f := by rw [ht]
  have hfresh : s'.fresh = s.fresh := by rw [ht]; rfl
  have hobj : ∀ g, g ≠ f → s'.obj g = s.obj g := by
    intro g hg
    rw [ht]
    exact Function.update_of_ne hg ..
  have hname : ∀ g, (s'.obj g).name = (s.obj g).name := by
    intro g
    by_cases e : g = f
    · rw [ht, e]
      show (Function.update s.obj f _ f).name = _
      rw [Function.update_self]
    · rw [hobj g e]
  have hmem : ∀ g, g ∈ s'.files ↔ g ≠ f ∧ g ∈ s.files := by
    intro g
    rw [hfiles]
    exact h.nodup.mem_erase_iff
  have hok : MemfsOk s' := by
    refine ⟨by rw [hfiles]; exact h.nodup.erase f, fun g hg => ?_, fun g hg => ?_, fun g hg => ?_,
      fun g hg k hk e => ?_, fun g hg => ?_, fun g hg => ?_, fun d c hc => ?_⟩
    · rw [hfresh]
      exact h.lt g ((hmem g).mp hg).2
    · obtain ⟨hne, hg⟩ := (hmem g).mp hg
      rw [hobj g hne]
      exact h.alive g hg
    · rw [hname]
      exact h.named g ((hmem g).mp hg).2
    · rw [hname, hname] at e
      exact h.names g ((hmem g).mp hg).2 k ((hmem k).mp hk).2 e
    · obtain ⟨hne, hg⟩ := (hmem g).mp hg
      rw [hobj g hne]
      exact h.size g hg
    · rw [hname]
      exact h.unnamed g (by rw [← hfresh]; exact hg)
    · exact (h.dir d c (by rw [ht] at hc; exact hc)).erase h.nodup hfiles hfresh
  refine ⟨hok, FileMap.ext (funext fun m => ?_) (funext hname)⟩
  show s'.fileMap.bytes m = Function.update s.fileMap.bytes n none m
  refine hok.bytes_eq m _ (fun g hg hm => ?_) fun hnone => ?_
  · obtain ⟨hne, hg⟩ := (hmem g).mp hg
    rw [hname] at hm
    have hmn : m ≠ n := by
      rintro rfl
      exact hne (h.names g hg f hf (hm.trans hn.symm))
    rw [Function.update_of_ne hmn, h.bytes_some hg hm, hobj g hne]
  · by_cases e : m = n
    · rw [e, Function.update_self]
    · rw [Function.update_of_ne e]
      refine fileMap_bytes_none fun g hg hm => ?_
      have hgf : g ≠ f := by
        rintro rfl
        exact e (Option.some.inj (hm.symm.trans hn))
      exact hnone g ((hmem g).mpr ⟨hgf, hg⟩) (by rw [hname]; exact hm)

theorem memfsCreate_simulates (h : MemfsOk s) {name : List UInt8} {len : Nat} {room strdup : Bool}
    (hroom : room = true → len < 2 ^ 63 ∧ strdup = true) : Simulates s (.create name len room strdup) := by
  unfold Simulates memfsStep memfsCreate
  dsimp only
  split
  · rename_i hlen
    exact ⟨s, _, rfl, h, .inl ⟨rfl, .inl ⟨rfl, .inl hlen⟩⟩⟩
  rename_i hlen
  split
  · rename_i hslash
    exact ⟨s, _, rfl, h, .inl ⟨rfl, .inr (.inl ⟨rfl, hslash⟩)⟩⟩
  rcases h.find_cases (trimName name) with ⟨f, hf, hn, hfind⟩ | ⟨hno, hfind⟩
  · rw [hfind]
    refine ⟨s, _, rfl, h, .inl ⟨rfl, .inr (.inr ⟨rfl, ?_⟩)⟩⟩
    rw [h.bytes_some hf hn]
    exact Option.some_ne_none _
  rw [hfind]
  cases room with
  | false => exact ⟨s, _, rfl, h, .inl ⟨rfl, .inl ⟨rfl, .inr rfl⟩⟩⟩
  | true =>
    obtain ⟨hsize, rfl⟩ := hroom rfl
    obtain ⟨hok, hmap⟩ := h.newFile hno (b := List.replicate len 0) (by rw [List.length_replicate]; exact hsize)
      (s.fresh :: s.handles) rfl
    exact ⟨_, _, rfl, hok, .inr ⟨fileMap_bytes_none hno, s.fresh, rfl, h.unnamed _ (Nat.le_refl _), hmap⟩⟩

theorem memfsOpen_simulates (h : MemfsOk s) (name : List UInt8) : Simulates s (.open name) := by
  unfold Simulates memfsStep memfsOpen
  dsimp only
  rcases h.find_cases (trimName name) with ⟨f, hf, hn, hfind⟩ | ⟨hno, hfind⟩
  · rw [hfind]
    exact ⟨_, _, rfl, h.handles _, rfl, .inr ⟨f, _, rfl, hn, h.bytes_some hf hn⟩⟩
  · rw [hfind]
    exact ⟨_, _, rfl, h, rfl, .inl ⟨rfl, fileMap_bytes_none hno⟩⟩

theorem memfsRemove_simulates (h : MemfsOk s) (name : List UInt8) : Simulates s (.remove name) := by
  unfold Simulates memfsStep memfsRemove
  dsimp only
  rcases h.find_cases (trimName name) with ⟨f, hf, hn, hfind⟩ | ⟨hno, hfind⟩
  · rw [hfind]
    obtain ⟨hok, hmap⟩ := h.dropFile hf hn rfl
    exact ⟨_, _, rfl, hok, .inr ⟨by rw [h.bytes_some hf hn]; exact Option.some_ne_none _, rfl, hmap⟩⟩
  · rw [hfind]
    exact ⟨_, _, rfl, h, .inl ⟨rfl, rfl, fileMap_bytes_none hno⟩⟩

theorem memfsRead_simulates (h : MemfsOk s) {off : Int} {len : Nat}
    (hwhen : 0 ≤ off → f ∈ s.files ∧ off.toNat + len < 2 ^ 64) : Simulates s (.read f off len) := by
  unfold Simulates memfsStep memfsRead
  dsimp only
  split
  · rename_i hoff
    exact ⟨s, _, rfl, h, rfl, .inl ⟨hoff, rfl⟩⟩
  rename_i hoff
  obtain ⟨hf, hlen⟩ := hwhen (by omega)
  obtain ⟨n, hat⟩ := h.at hf
  have hsize := h.size f hf
  rw [h.deref hf, Option.bind_some, Nat.mod_eq_of_lt hlen, show offT (s.obj f).bytes.length = _ from if_pos hsize]
  set b := (s.obj f).bytes with hb
  refine ⟨s, .data ((b.drop off.toNat).take len), ?_, h, rfl, .inr ⟨by omega, n, b, hat, rfl⟩⟩
  by_cases hend : off ≥ (b.length : Int)
  · have hdrop : b.drop off.toNat = [] := List.drop_eq_nil_of_le (by omega)
    rw [if_pos hend, if_pos (.inl rfl), hdrop, List.take_nil, List.take_nil]
  by_cases hlong : off.toNat + len > b.length
  · rw [if_neg hend, if_pos hlong, if_pos (.inr (by omega)), List.take_of_length_le (by rw [List.length_drop]),
      List.take_of_length_le (by rw [List.length_drop]; omega)]
  · rw [if_neg hend, if_neg hlong, if_pos (.inr (by omega))]

theorem memfsTruncate_simulates (h : MemfsOk s) (hf : f ∈ s.files) (len : Nat) (room : Bool) :
    Simulates s (.truncate f len room) := by
  obtain ⟨n, hat⟩ := h.at hf
  unfold Simulates memfsStep memfsTruncate
  dsimp only
  rw [h.deref hf, Option.bind_some]
  split
  · rename_i hlen
    exact ⟨s, _, rfl, h, n, _, hat, .inl ⟨hlen, rfl, rfl⟩⟩
  rename_i hlen
  cases room with
  | false => exact ⟨s, _, rfl, h, n, _, hat, .inr (.inl ⟨rfl, rfl, rfl⟩)⟩
  | true =>
    have hsize := h.size f hf
    obtain ⟨hok, hmap⟩ := h.setBytes hf hat.1 (b := (s.obj f).bytes.take len) (by rw [List.length_take]; omega)
    exact ⟨_, _, rfl, hok, n, _, hat, .inr (.inr ⟨by omega, rfl, hmap⟩)⟩

/-- what an allocation leaves behind the data does not matter where it is zero before the write -/
theorem memcpyTo_grown {b data : List UInt8} {off : Nat} {junk : Nat → UInt8}
    (h : ∀ i, b.length ≤ i → i < off → junk i = 0) :
    memcpyTo (b ++ (List.range (off + data.length - b.length)).map fun i => junk (b.length + i)) off data =
      FileMap.written b off data := by
  have htake : (b ++ (List.range (off + data.length - b.length)).map fun i => junk (b.length + i)).take off =
      (b ++ List.replicate (off + data.length - b.length) 0).take off := by
    rw [List.take_append, List.take_append]
    congr 1
    refine List.ext_getElem (by simp) fun i h1 _ => ?_
    have hi : i < off - b.length := by
      rw [List.length_take] at h1
      omega
    simp [h (b.length + i) (by omega) (by omega)]
  have hdrop : (b ++ (List.range (off + data.length - b.length)).map fun i => junk (b.length + i)).drop
      (off + data.length) = (b ++ List.replicate (off + data.length - b.length) 0).drop (off + data.length) := by
    by_cases hk : off + data.length ≤ b.length
    · rw [show off + data.length - b.length = 0 by omega]
      rfl
    · rw [List.drop_eq_nil_of_le, List.drop_eq_nil_of_le] <;> simp <;> omega
  unfold FileMap.written memcpyTo
  rw [htake, hdrop]

theorem memfsWrite_simulates (h : MemfsOk s) {off : Int} {data : List UInt8} {room : Bool} {junk : Nat → UInt8}
    (hwhen : 0 ≤ off → f ∈ s.files ∧ off.toNat + data.length < 2 ^ 64 ∧
      (room = true → off.toNat + data.length < 2 ^ 63 ∧
        ∀ i, (s.obj f).bytes.length ≤ i → i < off.toNat → junk i = 0)) :
    Simulates s (.write f off data room junk) := by
  unfold Simulates memfsStep memfsWrite
  dsimp only
  split
  · rename_i hoff
    exact ⟨s, _, rfl, h, .inl ⟨hoff, rfl, rfl⟩⟩
  rename_i hoff
  obtain ⟨hf, hlen, hroom⟩ := hwhen (by omega)
  obtain ⟨n, hat⟩ := h.at hf
  rw [h.deref hf, Option.bind_some, Nat.mod_eq_of_lt hlen]
  split
  · rename_i hfull
    have hr : room = false := by simpa using hfull.2
    exact ⟨s, _, rfl, h, .inr ⟨by omega, n, _, hat, .inl ⟨hfull.1, hr, rfl, rfl⟩⟩⟩
  rename_i hfull
  -- the bytes that `realloc` leaves before the write are zero
  have hsize := h.size f hf
  have hgrown : memcpyTo ((s.obj f).bytes ++ (List.range (off.toNat + data.length - (s.obj f).bytes.length)).map
      fun i => junk ((s.obj f).bytes.length + i)) off.toNat data = FileMap.written (s.obj f).bytes off.toNat data :=
    memcpyTo_grown fun i h1 h2 => (hroom (by
      by_contra hr
      exact hfull ⟨by omega, hr⟩)).2 i h1 h2
  have hlong : (memcpyTo ((s.obj f).bytes ++ (List.range (off.toNat + data.length - (s.obj f).bytes.length)).map
      fun i => junk ((s.obj f).bytes.length + i)) off.toNat data).length < 2 ^ 63 := by
    have hbound : off.toNat + data.length < 2 ^ 63 := by
      by_cases hr : room = true
      · exact (hroom hr).1
      · have : ¬ off.toNat + data.length > (s.obj f).bytes.length := fun hs => hfull ⟨hs, hr⟩
        omega
    simp only [memcpyTo, List.length_append, List.length_take, List.length_drop, List.length_map, List.length_range]
    omega
  rw [if_pos (.inr (by rw [List.length_append, List.length_map, List.length_range]; omega))]
  obtain ⟨hok, hmap⟩ := h.setBytes hf hat.1 hlong
  exact ⟨_, _, rfl, hok, .inr ⟨by omega, n, _, hat, .inr ⟨rfl, hmap.trans (by rw [hgrown])⟩⟩⟩

theorem memfsReaddir_simulates (h : MemfsOk s) {d : Nat} {ent : Bool} (hd : (s.dirs d).isSome)
    (hwhen : ent = true → ∀ c f, s.dirs d = some c → c.next = some f →
      f ∈ s.files ∧ ∀ n, (s.obj f).name = some n → n.length < FS_MAX_FILE_LEN) : Simulates s (.readdir d ent) := by
  unfold Simulates memfsStep memfsReaddir
  dsimp only
  cases ent with
  | false => exact ⟨s, _, rfl, h, rfl, .inl ⟨rfl, rfl⟩⟩
  | true =>
    obtain ⟨c, hc⟩ := Option.isSome_iff_exists.mp hd
    rw [if_neg (by decide), hc, Option.bind_some]
    cases hnext : c.next with
    | none => exact ⟨s, _, rfl, h, rfl, .inr (.inl rfl)⟩
    | some f =>
      obtain ⟨hf, hlen⟩ := hwhen rfl c f hc hnext
      obtain ⟨n, hn, hbytes⟩ := h.at hf
      have hname : (s.obj f).name = some n := hn
      dsimp only
      rw [h.deref hf, Option.bind_some, hname, Option.map_some]
      have htake : n.take (FS_MAX_FILE_LEN - 1) = n := List.take_of_length_le (Nat.le_sub_one_of_lt (hlen n hname))
      refine ⟨_, _, rfl, h.cursor (fun c' e => ?_) d s.freshDir, rfl, .inr (.inr ⟨n, by rw [htake], ?_⟩)⟩
      · cases e
        exact (h.dir d c hc).advance h hnext hf
      · rw [hbytes]
        exact Option.some_ne_none _

theorem memfsOpendir_simulates (h : MemfsOk s) (name : List UInt8) (room : Bool) :
    Simulates s (.opendir name room) := by
  unfold Simulates memfsStep memfsOpendir
  dsimp only
  split
  · rename_i hname
    exact ⟨s, _, rfl, h, rfl, .inl ⟨rfl, hname⟩⟩
  cases room with
  | false => exact ⟨s, _, rfl, h, rfl, .inr (.inl ⟨rfl, rfl⟩)⟩
  | true =>
    refine ⟨_, _, rfl, h.cursor (fun c' e => ?_) s.freshDir _, rfl, .inr (.inr ⟨s.freshDir, rfl⟩)⟩
    cases e
    refine ⟨.nil, h.lt, fun f hf => (by cases hf), fun hnone f hf _ => ?_, fun g hg => ⟨h.lt g ?_, fun _ => ?_⟩⟩
    · have hnone : s.files.head? = none := hnone
      rw [List.head?_eq_none_iff.mp hnone] at hf
      cases hf
    · obtain ⟨rest, hrest⟩ := List.head?_eq_some_iff.mp hg
      rw [hrest]
      exact .head _
    · obtain ⟨rest, hrest⟩ := List.head?_eq_some_iff.mp hg
      exact ⟨[], rest, hrest, fun f _ hm => .inr (by rw [← hrest]; exact hm), fun f hf => (by cases hf)⟩

/-- one call -/
theorem memfsStep_simulates (h : MemfsOk s) {op : MemfsOp} (hheld : MemfsHeld s op) (hwhen : MemfsWhen s op) :
    Simulates s op := by
  cases op with
  | create name len room strdup => exact memfsCreate_simulates h hwhen
  | «open» name => exact memfsOpen_simulates h name
  | remove name => exact memfsRemove_simulates h name
  | close f => exact ⟨_, _, rfl, h.handles _, rfl, rfl⟩
  | read f off len => exact memfsRead_simulates h hwhen
  | truncate f len room => exact memfsTruncate_simulates h hwhen len room
  | write f off data room junk => exact memfsWrite_simulates h hwhen
  | opendir name room => exact memfsOpendir_simulates h name room
  | readdir d ent => exact memfsReaddir_simulates h hheld hwhen
  | closedir d => exact ⟨_, _, rfl, h.cursor (fun c' e => by cases e) d s.freshDir, rfl, rfl⟩

theorem memfs_ok (h : memfsSys.Run MemfsWhen s) : MemfsOk s := by
  apply Machine.Run.invariant (I := MemfsOk) _ _ h
  · rintro _ rfl
    exact memfsMount_ok
  · rintro s op s' hok hwhen ⟨hheld, r, hr⟩
    obtain ⟨t, r', hr', hok', -⟩ := memfsStep_simulates hok hheld hwhen
    cases hr.symm.trans hr'
    exact hok'

end

/-- **The memory filesystem.**  In a run whose calls meet the condition no call uses a file that was freed, each does
what it does to the map from names to bytes, and listings show each file that was there all the time once. -/
theorem memfs_refines {s : Memfs} (h : memfsSys.Run MemfsWhen s) :
    MemfsListed s ∧ ∀ op, MemfsHeld s op → MemfsWhen s op →
      ∃ s' r, memfsStep s op = some (s', r) ∧ FileMapStep s.fileMap op r s'.fileMap := by
  have hok := memfs_ok h
  refine ⟨fun d c hc => ⟨(hok.dir d c hc).nodup, (hok.dir d c hc).done⟩, fun op hheld hwhen => ?_⟩
  obtain ⟨s', r, hr, -, hspec⟩ := memfsStep_simulates hok hheld hwhen
  exact ⟨s', r, hr, hspec⟩

theorem memfsRun_step {G : Memfs → MemfsOp → Prop} {s s' : Memfs} {r : MemfsRet} (h : memfsSys.Run G s) (op : MemfsOp)
    (hg : G s op) (hheld : MemfsHeld s op) (hr : memfsStep s op = some (s', r)) : memfsSys.Run G s' :=
  h.step hg ⟨hheld, r, hr⟩

/-- the second byte of a file of three -/
theorem memfs_refines_read : ∃ s, memfsSys.Run MemfsWhen s ∧ MemfsListed s ∧
    ∃ s' r, memfsStep s (.read 0 1 2) = some (s', r) ∧ FileMapStep s.fileMap (.read 0 1 2) r s'.fileMap := by
  have h0 : memfsSys.Run MemfsWhen memfsMount := .init rfl
  have h1 := memfsRun_step h0 (.create [97] 0 true true) (fun _ => ⟨by decide, rfl⟩) trivial rfl
  have h2 := memfsRun_step h1 (.write 0 0 [1, 2, 3] true fun _ => 0)
    (fun _ => ⟨.head _, by decide, fun _ => ⟨by decide, fun _ _ _ => rfl⟩⟩) (.head _) rfl
  obtain ⟨hl, hs⟩ := memfs_refines h2
  exact ⟨_, h2, hl, hs (.read 0 1 2) (.head _) fun _ => ⟨.head _, by decide⟩⟩

/-- **A read of a file that was removed.**  The file was freed, and its handle is still held. -/
theorem memfs_refines_fails : ¬ ∀ s, memfsSys.Reach s → MemfsListed s ∧ ∀ op, MemfsHeld s op →
    ∃ s' r, memfsStep s op = some (s', r) ∧ FileMapStep s.fileMap op r s'.fileMap := by
  intro h
  have h0 : memfsSys.Reach memfsMount := .init rfl
  have h1 := memfsRun_step h0 (.create [97] 0 true true) trivial trivial rfl
  have h2 := memfsRun_step h1 (.remove [97]) trivial trivial rfl
  obtain ⟨s', r, hr, -⟩ := (h _ h2).2 (.read 0 0 1) (.head _)
  cases hr

end LkHv.Fs
