import LkHv.Fs.SpifsToc
import LkHv.Kernel.Crc32

/-!
# The commit of a SPIFS table

Calls on a mounted file system whose commits end, fail or are cut off by a loss of power at any page, and mounts
of what they leave on the device.

* `SpifsCall`            the calls that may commit: what they do in memory, the table they commit, the pages they touch;
* `SpifsDisk`, `diskStep`, `spifsDisk`   a device with a file system mounted or not, its steps and its machine;
* `Current`              the table a mount finds, and where;
* `commit_atomic`        a mount after a step finds the table from before it or the one the call commits;
* `mountable_format`     a format of a device with room for both tables starts such a run.
-/

namespace LkHv

/-- the calls that may commit the table -/
inductive SpifsCall where
  | create (name : List UInt8) (len : Nat) (mem erase : Bool)
  | remove (name : List UInt8)
  | write (handle : Nat) (off : Int) (size : Nat) (pages : Bool)
  | truncate (handle len : Nat)

/-- the pages from `t` on that `len` bytes are written to: full pages and a trailing one -/
def fullPages (pageSize t len : Nat) : List Nat :=
  (List.range (len / pageSize)).map (t + ·) ++ if len % pageSize = 0 then [] else [t + len / pageSize]

/-- the pages that `spifs_write` reads and writes for a file from `pageIdx` on -/
def writtenPages (pageSize pageIdx off size : Nat) : List Nat :=
  let startAddr := (off + pageIdx * pageSize % 2 ^ 32) % 2 ^ 32
  let targetPageId := startAddr >>> log2Uint pageSize
  let pageOffset := startAddr % pageSize
  if pageOffset = 0 then fullPages pageSize targetPageId size
  else targetPageId :: fullPages pageSize (targetPageId + 1) (size - min size (pageSize - pageOffset))

namespace SpifsCall

/-- a handle is the address of a file that is not an entry of the tables themselves -/
def fileOf (s : Spifs) (handle : Nat) : Option SpifsFile := (s.files.drop 1).dropLast.find? (·.ptr = handle)

/-- the file system in memory after the call, the commit ending or failing -/
def run (s : Spifs) (commit : Bool) : SpifsCall → Option Spifs
  | create name len mem erase => some (spifsCreate s name len mem erase commit).1
  | remove name => some (spifsRemove s name commit).1
  | write handle off size pages => (fileOf s handle).map fun file => (spifsWrite s file off size pages commit).1
  | truncate handle len => (fileOf s handle).map fun file => (spifsTruncate s file len commit).1

/-- the table that the call hands to `spifs_commit_toc`, if it comes so far -/
def toc (s : Spifs) : SpifsCall → Option (List TocFile)
  | create name len mem erase =>
    match createEntry s (trimName name) len with
    | .ok metadata =>
      if mem ∧ erase then some ((spifsAddAscending ⟨s.nextPtr, metadata⟩ s.files).map (·.metadata)) else none
    | .error _ => none
  | remove name => (findFile s (trimName name)).map fun file => (dropFile s file.ptr).files.map (·.metadata)
  | write handle off size pages => (fileOf s handle).bind fun file =>
    let stop := add64 off.toNat size
    if off < 0 ∨ stop > file.metadata.capacity ∨ stop ≤ file.metadata.length ∨ ¬ pages then none
    else some ((setLength s file.ptr stop).files.map (·.metadata))
  | truncate handle len => (fileOf s handle).bind fun file =>
    if len > file.metadata.length then none else some ((setLength s file.ptr len).files.map (·.metadata))

/-- the pages that the call erases or writes before the commit -/
def touched (s : Spifs) : SpifsCall → List Nat
  | create name len mem _ =>
    match createEntry s (trimName name) len with
    | .ok metadata =>
      if mem then
        (List.range (metadata.capacity / s.pageSize)).map
          fun i => metadata.pageIdx * s.pageSize % 2 ^ 32 / s.pageSize + i
      else []
    | .error _ => []
  | write handle off size _ =>
    match fileOf s handle with
    | some file =>
      if off < 0 ∨ add64 off.toNat size > file.metadata.capacity then []
      else writtenPages s.pageSize file.metadata.pageIdx off.toNat size
    | none => []
  | _ => []

/-- the sizes do not wrap -/
def Fits (s : Spifs) : SpifsCall → Prop
  | create _ len _ _ => len ≤ 2 ^ 32 - s.pageSize
  | write _ off size _ => off.toNat + size < 2 ^ 64
  | _ => True

end SpifsCall

/-- how a call ends: before or without a commit, with one that ends or fails, or by a loss of power in it, at its
`k`-th page, which is left as `torn` -/
inductive CommitEnd where
  | done
  | fail (k : Nat) (torn : List Slot)
  | crash (k : Nat) (torn : List Slot)
  | lost

structure SpifsDisk where
  pages : Pages
  fs : Option Spifs

inductive DiskOp where
  | mount
  /-- or a loss of power between calls -/
  | unmount
  /-- a call; the pages it touches before the commit are left as `data` has them -/
  | call (c : SpifsCall) (data : Pages) (e : CommitEnd)

section
variable (crc32 : Nat → Slot → Nat) (dev : Bio.Bdev)

/-- the pages that the commit of a table writes -/
def commitPages (s : Spifs) (files : List TocFile) : List (List Slot) :=
  tocPages crc32 s.pageSize s.numEntries (add32 s.generation 1) files

/-- pages written over the table that is not in use -/
def overwrite (s : Spifs) (pages : List (List Slot)) (d : Pages) : Pages :=
  storePages s.pageCount s.tocPosition.flip 0 pages d

def diskCall (d : Pages) (s : Spifs) (c : SpifsCall) (data : Pages) : CommitEnd → Option SpifsDisk
  | e =>
    let d := fun p => if p ∈ c.touched s then data p else d p
    match e, c.toc s with
    | .lost, _ => (c.run s false).map fun _ => ⟨d, none⟩
    | .done, none => (c.run s true).map fun s' => ⟨d, some s'⟩
    | .done, some files => (c.run s true).map fun s' => ⟨overwrite s (commitPages crc32 s files) d, some s'⟩
    | .fail k torn, some files =>
      if k < (commitPages crc32 s files).length then
        (c.run s false).map fun s' => ⟨overwrite s ((commitPages crc32 s files).take k ++ [torn]) d, some s'⟩
      else none
    | .crash k torn, some files =>
      if k < (commitPages crc32 s files).length then
        some ⟨overwrite s ((commitPages crc32 s files).take k ++ [torn]) d, none⟩
      else none
    | _, none => none

def diskStep : SpifsDisk → DiskOp → Option SpifsDisk
  | ⟨d, none⟩, .mount =>
    match spifsMount crc32 dev d with
    | .ok s => some ⟨d, some s⟩
    | .error _ => some ⟨d, none⟩
  | ⟨d, some _⟩, .unmount => some ⟨d, none⟩
  | ⟨d, some s⟩, .call c data e => diskCall crc32 d s c data e
  | _, _ => none

/-- the file table that a mount finds -/
def tableOf (d : Pages) : Option (List TocFile) :=
  match spifsMount crc32 dev d with
  | .ok s => some (s.files.map (·.metadata))
  | .error _ => none

/-- a device on which a mount finds a table that is laid out, of as many entries as pages of two slots or more hold;
no larger than 4 GiB -/
def Mountable (d : Pages) : Prop :=
  (∀ p, ∀ b ∈ d p, b.length = SPIFS_ENTRY_LENGTH) ∧ ∃ s, spifsMount crc32 dev d = .ok s ∧ SpifsOk s ∧
    2 ≤ s.pageSize / SPIFS_ENTRY_LENGTH ∧ s.pageSize / SPIFS_ENTRY_LENGTH ∣ s.numEntries + 2 ∧
    s.pageCount * s.pageSize ≤ 2 ^ 32

def spifsDisk : Machine SpifsDisk DiskOp :=
  .ofFun (fun σ => σ.fs = none ∧ Mountable crc32 dev σ.pages) (diskStep crc32 dev)

/-- the whole table that a call commits has been written over the one that was not in use -/
def Whole (s : Spifs) (c : SpifsCall) (d : Pages) : Prop :=
  ∃ files, c.toc s = some files ∧ ∃ d', d = overwrite s (commitPages crc32 s files) d'

/-- The checksum detects a table that is torn: the one that is not in use is accepted after a call only if it was
before, or if it is the one committed, whole.  The generation does not wrap. -/
def DiskOp.Detects : SpifsDisk → DiskOp → Prop
  | ⟨d, some s⟩, .call c data e =>
    s.generation + 1 < 2 ^ 32 ∧ ∀ σ', diskCall crc32 d s c data e = some σ' →
      let read := fun d => readToc crc32 s.pageSize s.pageCount d s.tocPosition.flip
      read σ'.pages = none ∨ read σ'.pages = read d ∨ Whole crc32 s c σ'.pages
  | _, _ => True

/-- Besides, the sizes of the call do not wrap, and a commit that fails has not written the whole table. -/
def DiskOp.Sound : SpifsDisk → DiskOp → Prop
  | ⟨d, some s⟩, .call c data e =>
    (DiskOp.call c data e).Detects crc32 ⟨d, some s⟩ ∧ c.Fits s ∧
      ∀ k torn, e = .fail k torn → ∀ σ', diskCall crc32 d s c data e = some σ' → ¬ Whole crc32 s c σ'.pages
  | _, _ => True

end

/-! ## the calls -/

/-- the entries have the sizes of their fields -/
def FilesFit (s : Spifs) : Prop := ∀ f ∈ s.files, f.metadata.Fits

/-- the geometry and the count of entries are the same -/
def SameShape (s s' : Spifs) : Prop :=
  s'.pageSize = s.pageSize ∧ s'.pageCount = s.pageCount ∧ s'.numEntries = s.numEntries

/-- the same table is in use -/
def SameToc (s s' : Spifs) : Prop := s'.generation = s.generation ∧ s'.tocPosition = s.tocPosition

theorem sameShape_afterCommit (s : Spifs) (commit : Bool) : SameShape s (afterCommit s commit) := by
  cases commit <;> exact ⟨rfl, rfl, rfl⟩

theorem fit_afterCommit {s : Spifs} (h : FilesFit s) (commit : Bool) : FilesFit (afterCommit s commit) := by
  cases commit <;> exact h

theorem fit_dropFile {s : Spifs} (h : FilesFit s) (ptr : Nat) : FilesFit (dropFile s ptr) :=
  fun f hf => h f (List.mem_of_mem_filter hf)

theorem fit_setLength {s : Spifs} (h : FilesFit s) (ptr : Nat) {len : Nat} (hl : len < 2 ^ 32) :
    FilesFit (setLength s ptr len) := by
  intro f hf
  obtain ⟨a, ha, rfl⟩ := List.mem_map.mp hf
  have := h a ha
  show (if a.ptr = ptr then _ else a : SpifsFile).metadata.Fits
  split
  · exact ⟨this.1, hl, this.2.2⟩
  · exact this

theorem padName_length (name : List UInt8) : (padName name).length = MAX_FILENAME_LENGTH := by
  have h : (name.take (MAX_FILENAME_LENGTH - 1)).length ≤ MAX_FILENAME_LENGTH - 1 := List.length_take_le _ _
  unfold padName
  dsimp only
  rw [List.length_append, List.length_replicate]
  unfold MAX_FILENAME_LENGTH at *
  omega

theorem mem_addAscending {x f : SpifsFile} {l : List SpifsFile} (h : f ∈ spifsAddAscending x l) : f = x ∨ f ∈ l := by
  induction l with
  | nil => exact .inl (List.mem_singleton.mp h)
  | cons a l ih =>
    rw [spifsAddAscending] at h
    split at h
    · exact List.mem_cons.mp h
    · rcases List.mem_cons.mp h with rfl | h
      · exact .inr (.head l)
      · exact (ih h).imp_right (.tail a)

namespace SpifsOk
variable {s : Spifs}

theorem page_pos (I : SpifsOk s) : 0 < s.pageSize := by
  obtain ⟨k, -, h⟩ := I.page
  rw [h]
  exact Nat.two_pow_pos k

theorem page_lt (I : SpifsOk s) : s.pageSize < 2 ^ 32 := by
  obtain ⟨k, hk, h⟩ := I.page
  rw [h]
  exact Nat.pow_lt_pow_right (by decide) hk

/-- a file that is not an entry of the tables -/
theorem of_fileOf (I : SpifsOk s) {handle : Nat} {file : SpifsFile} (h : SpifsCall.fileOf s handle = some file) :
    file ∈ s.files ∧ tocPageCount s.pageSize s.numEntries ≤ file.metadata.pageIdx ∧
      file.metadata.stop s.pageSize + tocPageCount s.pageSize s.numEntries ≤ s.pageCount := by
  have hm := List.mem_of_find?_eq_some h
  refine ⟨List.mem_of_mem_drop (List.dropLast_subset _ hm), ?_⟩
  obtain ⟨front, mid, back, hs, -, -, hb⟩ := I.laid.between
  apply hb
  have hmm : file.metadata ∈ ((s.files.map (·.metadata)).drop 1).dropLast := by
    rw [← List.map_drop, ← List.map_dropLast]
    exact List.mem_map_of_mem hm
  rw [hs] at hmm
  simpa using hmm

/-- the entry of a new file -/
theorem entry_fits (I : SpifsOk s) {name : List UInt8} {len : Nat} {md : TocFile} (hfit : len ≤ 2 ^ 32 - s.pageSize)
    (h : LkHv.createEntry s name len = .ok md) : md.Fits ∧ tocPageCount s.pageSize s.numEntries ≤ md.pageIdx ∧
      md.stop s.pageSize + tocPageCount s.pageSize s.numEntries ≤ s.pageCount := by
  obtain ⟨-, hz, l, f, g, t, hs, hf, hg⟩ := I.createEntry hfit h
  have L := I.laid
  rw [hs, List.map_append, List.map_cons, List.map_cons] at L
  have L' := (L.insert I.page_pos hz (Nat.le_of_eq hf) hg).inner
  have hidx : md.pageIdx < md.stop s.pageSize := Laid.pages_pos I.page_pos hz
  have hpc := I.count_lt
  have hps := I.page_lt
  refine ⟨⟨by lia, ?_⟩, L'⟩
  unfold LkHv.createEntry at h
  split at h
  · cases h
  split at h
  · cases h
  split at h
  · cases h
  rename_i hlen
  split at h
  · cases h
  split at h
  · cases h
  have hcap : (if len = 0 then s.pageSize else roundupPage len s.pageSize) < 2 ^ 32 := by
    split
    · exact hps
    · exact Nat.lt_of_le_of_lt (Nat.div_mul_le_self _ _) (Nat.mod_lt _ (by decide))
  generalize (if len = 0 then s.pageSize else roundupPage len s.pageSize) = capacity at h hcap
  dsimp only at h
  split at h
  · cases h
  obtain rfl := Except.ok.inj h
  exact ⟨Nat.lt_of_le_of_lt (Nat.le_of_not_lt hlen) (by decide), hcap, padName_length _⟩

end SpifsOk

namespace SpifsCall
variable {s s' : Spifs} {c : SpifsCall}

/-- **A call in memory** keeps what it relies on. -/
theorem run_ok (I : SpifsOk s) (F : FilesFit s) (hc : c.Fits s) {commit : Bool} (h : c.run s commit = some s') :
    SpifsOk s' ∧ FilesFit s' ∧ SameShape s s' := by
  cases c with
  | create name len mem erase =>
    obtain rfl := Option.some.inj h
    refine ⟨I.create mem erase commit hc, ?_⟩
    unfold spifsCreate
    split
    · exact ⟨F, rfl, rfl, rfl⟩
    rename_i md hmd
    split
    · exact ⟨F, rfl, rfl, rfl⟩
    split
    · exact ⟨F, rfl, rfl, rfl⟩
    have hfit : FilesFit { s with files := spifsAddAscending ⟨s.nextPtr, md⟩ s.files, nextPtr := s.nextPtr + 1 } := by
      intro f hf
      rcases mem_addAscending hf with rfl | hf
      · exact (I.entry_fits hc hmd).1
      · exact F f hf
    dsimp only
    split
    · exact ⟨fit_afterCommit hfit true, sameShape_afterCommit _ true⟩
    · exact ⟨fit_dropFile hfit _, rfl, rfl, rfl⟩
  | remove name =>
    obtain rfl := Option.some.inj h
    refine ⟨I.remove name commit, ?_⟩
    unfold spifsRemove
    split
    · exact ⟨F, rfl, rfl, rfl⟩
    · exact ⟨fit_afterCommit (fit_dropFile F _) commit, sameShape_afterCommit _ commit⟩
  | write handle off size pages =>
    obtain ⟨file, hf, rfl⟩ := Option.map_eq_some_iff.mp h
    have hm := (I.of_fileOf hf).1
    refine ⟨I.write hm off size pages commit, ?_⟩
    unfold spifsWrite
    split
    · exact ⟨F, rfl, rfl, rfl⟩
    dsimp only
    split
    · exact ⟨F, rfl, rfl, rfl⟩
    rename_i hstop
    have hlt : add64 off.toNat size < 2 ^ 32 := Nat.lt_of_le_of_lt (Nat.le_of_not_lt hstop) (F file hm).2.2.1
    by_cases hd : add64 off.toNat size > file.metadata.length
    · rw [if_pos hd, if_pos hd]
      split
      · exact ⟨fit_setLength F _ hlt, rfl, rfl, rfl⟩
      · exact ⟨fit_afterCommit (fit_setLength F _ hlt) commit, sameShape_afterCommit _ commit⟩
    · rw [if_neg hd, if_neg hd]
      split
      · exact ⟨F, rfl, rfl, rfl⟩
      · exact ⟨F, rfl, rfl, rfl⟩
  | truncate handle len =>
    obtain ⟨file, hf, rfl⟩ := Option.map_eq_some_iff.mp h
    have hm := (I.of_fileOf hf).1
    refine ⟨I.truncate hm len commit, ?_⟩
    unfold spifsTruncate
    split
    · exact ⟨F, rfl, rfl, rfl⟩
    · rename_i hl
      have hlt : len < 2 ^ 32 := Nat.lt_of_le_of_lt (Nat.le_of_not_lt hl) (F file hm).2.1
      exact ⟨fit_afterCommit (fit_setLength F _ hlt) commit, sameShape_afterCommit _ commit⟩

/-- a commit that did not end leaves the table in use -/
theorem run_false (h : c.run s false = some s') : SameToc s s' := by
  cases c with
  | create name len mem erase =>
    obtain rfl := Option.some.inj h
    unfold spifsCreate
    split
    · exact ⟨rfl, rfl⟩
    split
    · exact ⟨rfl, rfl⟩
    split
    · exact ⟨rfl, rfl⟩
    · exact ⟨rfl, rfl⟩
  | remove name =>
    obtain rfl := Option.some.inj h
    unfold spifsRemove
    split <;> exact ⟨rfl, rfl⟩
  | write handle off size pages =>
    obtain ⟨file, hf, rfl⟩ := Option.map_eq_some_iff.mp h
    unfold spifsWrite
    split
    · exact ⟨rfl, rfl⟩
    dsimp only
    split
    · exact ⟨rfl, rfl⟩
    by_cases hd : add64 off.toNat size > file.metadata.length
    · rw [if_pos hd, if_pos hd]
      split <;> exact ⟨rfl, rfl⟩
    · rw [if_neg hd, if_neg hd]
      split <;> exact ⟨rfl, rfl⟩
  | truncate handle len =>
    obtain ⟨file, hf, rfl⟩ := Option.map_eq_some_iff.mp h
    unfold spifsTruncate
    split <;> exact ⟨rfl, rfl⟩

/-- a call that does not come to a commit leaves the table in use -/
theorem run_none (ht : c.toc s = none) (h : c.run s true = some s') : SameToc s s' := by
  cases c with
  | create name len mem erase =>
    obtain rfl := Option.some.inj h
    rw [toc] at ht
    unfold spifsCreate
    split at ht
    · rename_i md hmd
      split at ht
      · cases ht
      rename_i hio
      rw [hmd]
      dsimp only
      split
      · exact ⟨rfl, rfl⟩
      rename_i hmem
      rw [if_pos fun he => hio ⟨not_not.mp hmem, he⟩]
      exact ⟨rfl, rfl⟩
    · rename_i err herr
      rw [herr]
      exact ⟨rfl, rfl⟩
  | remove name =>
    obtain rfl := Option.some.inj h
    have hf := Option.map_eq_none_iff.mp ht
    unfold spifsRemove
    rw [hf]
    exact ⟨rfl, rfl⟩
  | write handle off size pages =>
    obtain ⟨file, hf, rfl⟩ := Option.map_eq_some_iff.mp h
    rw [toc, hf, Option.bind_some] at ht
    unfold spifsWrite
    split
    · exact ⟨rfl, rfl⟩
    rename_i hoff
    dsimp only at ht ⊢
    split
    · exact ⟨rfl, rfl⟩
    rename_i hstop
    split at ht
    · rename_i hnone
      by_cases hd : add64 off.toNat size > file.metadata.length
      · rw [if_pos hd, if_pos hd]
        have hp : ¬ pages := by
          rcases hnone with h | h | h | h
          · exact absurd h hoff
          · exact absurd h hstop
          · exact absurd h (Nat.not_le_of_lt hd)
          · exact h
        rw [if_pos hp]
        exact ⟨rfl, rfl⟩
      · rw [if_neg hd, if_neg hd]
        split <;> exact ⟨rfl, rfl⟩
    · cases ht
  | truncate handle len =>
    obtain ⟨file, hf, rfl⟩ := Option.map_eq_some_iff.mp h
    rw [toc, hf, Option.bind_some] at ht
    unfold spifsTruncate
    split
    · exact ⟨rfl, rfl⟩
    · rename_i hl
      rw [if_neg hl] at ht
      cases ht

/-- a call whose commit ends has the table it committed, and the other one in use -/
theorem run_some {files : List TocFile} (ht : c.toc s = some files) : ∃ s', c.run s true = some s' ∧
    s'.files.map (·.metadata) = files ∧ s'.generation = add32 s.generation 1 ∧ s'.tocPosition = s.tocPosition.flip := by
  cases c with
  | create name len mem erase =>
    refine ⟨_, rfl, ?_⟩
    rw [toc] at ht
    split at ht
    · rename_i md hmd
      split at ht
      · rename_i hio
        obtain rfl := Option.some.inj ht
        unfold spifsCreate
        rw [hmd]
        dsimp only
        rw [if_neg (not_not.mpr hio.1), if_neg (not_not.mpr hio.2), if_pos rfl]
        exact ⟨rfl, rfl, rfl⟩
      · cases ht
    · cases ht
  | remove name =>
    obtain ⟨file, hf, rfl⟩ := Option.map_eq_some_iff.mp ht
    refine ⟨_, rfl, ?_⟩
    unfold spifsRemove
    rw [hf]
    exact ⟨rfl, rfl, rfl⟩
  | write handle off size pages =>
    obtain ⟨file, hf, ht⟩ := Option.bind_eq_some_iff.mp ht
    dsimp only at ht
    split at ht
    · cases ht
    rename_i hgo
    obtain ⟨h1, hgo⟩ := not_or.mp hgo
    obtain ⟨h2, hgo⟩ := not_or.mp hgo
    obtain ⟨h3, h4⟩ := not_or.mp hgo
    obtain rfl := Option.some.inj ht
    refine ⟨(spifsWrite s file off size pages true).1, by rw [run, hf]; rfl, ?_⟩
    unfold spifsWrite
    rw [if_neg h1]
    dsimp only
    rw [if_neg h2, if_neg h4, if_pos (Nat.lt_of_not_le h3), if_pos (Nat.lt_of_not_le h3)]
    exact ⟨rfl, rfl, rfl⟩
  | truncate handle len =>
    obtain ⟨file, hf, ht⟩ := Option.bind_eq_some_iff.mp ht
    split at ht
    · cases ht
    rename_i hl
    obtain rfl := Option.some.inj ht
    refine ⟨(spifsTruncate s file len true).1, by rw [run, hf]; rfl, ?_⟩
    unfold spifsTruncate
    rw [if_neg hl]
    exact ⟨rfl, rfl, rfl⟩

theorem fullPages_bound {ps t len p : Nat} (hp : p ∈ fullPages ps t len) : t ≤ p ∧ p * ps < t * ps + len := by
  have hdm := Nat.div_add_mod len ps
  rw [Nat.mul_comm] at hdm
  rcases List.mem_append.mp hp with h | h
  · obtain ⟨i, hi, rfl⟩ := List.mem_map.mp h
    have hi' : (i + 1) * ps ≤ len / ps * ps := Nat.mul_le_mul_right ps (List.mem_range.mp hi)
    rw [Nat.succ_mul] at hi'
    refine ⟨Nat.le_add_right _ _, ?_⟩
    rw [Nat.add_mul]
    rcases Nat.eq_zero_or_pos ps with rfl | hps
    · rw [Nat.div_zero] at hi
      simp at hi
    · omega
  · split at h
    · cases h
    rename_i hm
    rw [List.mem_singleton.mp h, Nat.add_mul]
    exact ⟨Nat.le_add_right _ _, by omega⟩

/-- a write that fits in a file's capacity stays in the file's pages -/
theorem writtenPages_bound {k idx off size cap p : Nat} (hcap : 2 ^ k ∣ cap) (hfit : off + size ≤ cap)
    (hsmall : idx * 2 ^ k + cap < 2 ^ 32) (hp : p ∈ writtenPages (2 ^ k) idx off size) :
    idx ≤ p ∧ p < idx + cap / 2 ^ k := by
  have hpos : 0 < 2 ^ k := Nat.two_pow_pos k
  have hstart : (off + idx * 2 ^ k % 2 ^ 32) % 2 ^ 32 = off + idx * 2 ^ k := by
    rw [Nat.mod_eq_of_lt (show idx * 2 ^ k < 2 ^ 32 by omega)]
    exact Nat.mod_eq_of_lt (by omega)
  have hstop : (idx + cap / 2 ^ k) * 2 ^ k = idx * 2 ^ k + cap := by
    rw [Nat.add_mul, Nat.div_mul_cancel hcap]
  have hlt : ∀ q, q * 2 ^ k < idx * 2 ^ k + cap → q < idx + cap / 2 ^ k := by
    intro q hq
    rw [← hstop] at hq
    exact Nat.lt_of_mul_lt_mul_right hq
  have hge : idx ≤ (off + idx * 2 ^ k) / 2 ^ k := (Nat.le_div_iff_mul_le hpos).mpr (Nat.le_add_left _ _)
  have hdm := Nat.div_add_mod (off + idx * 2 ^ k) (2 ^ k)
  rw [Nat.mul_comm] at hdm
  have hmod := Nat.mod_lt (off + idx * 2 ^ k) hpos
  unfold writtenPages at hp
  dsimp only at hp
  rw [hstart, shift_pages] at hp
  generalize (off + idx * 2 ^ k) / 2 ^ k = t at *
  split at hp
  · obtain ⟨h1, h2⟩ := fullPages_bound hp
    exact ⟨by omega, hlt p (by omega)⟩
  · rename_i ho
    rcases List.mem_cons.mp hp with rfl | hp
    · exact ⟨hge, hlt p (by omega)⟩
    · obtain ⟨h1, h2⟩ := fullPages_bound hp
      rw [Nat.succ_mul] at h2
      have hp' : (t + 1) * 2 ^ k ≤ p * 2 ^ k := Nat.mul_le_mul_right _ h1
      rw [Nat.succ_mul] at hp'
      exact ⟨by omega, hlt p (by omega)⟩

/-- **Before a commit no page of a table is touched.** -/
theorem touched_between (I : SpifsOk s) (hc : c.Fits s) (hsmall : s.pageCount * s.pageSize ≤ 2 ^ 32)
    (hT : 0 < tocPageCount s.pageSize s.numEntries) {p : Nat} (hp : p ∈ c.touched s) : tocPageCount s.pageSize s.numEntries ≤ p ∧
      p + tocPageCount s.pageSize s.numEntries < s.pageCount := by
  obtain ⟨k, hk, hps⟩ := I.page
  have hpos := I.page_pos
  cases c with
  | create name len mem erase =>
    rw [touched] at hp
    split at hp
    · rename_i md hmd
      obtain ⟨-, h1, h2⟩ := I.entry_fits hc hmd
      split at hp
      · obtain ⟨i, hi, rfl⟩ := List.mem_map.mp hp
        have hi' := List.mem_range.mp hi
        unfold TocFile.stop at h2
        have hlt : md.pageIdx * s.pageSize < 2 ^ 32 := by
          refine Nat.lt_of_lt_of_le ?_ hsmall
          exact Nat.mul_lt_mul_of_pos_right (by lia) hpos
        rw [Nat.mod_eq_of_lt hlt, Nat.mul_div_cancel _ hpos]
        lia
      · cases hp
    · cases hp
  | remove name => cases hp
  | write handle off size pages =>
    rw [touched] at hp
    split at hp
    · rename_i file hf
      split at hp
      · cases hp
      · rename_i hgo
        obtain ⟨hm, h1, h2⟩ := I.of_fileOf hf
        have hz := I.laid.sized file.metadata (List.mem_map_of_mem hm)
        have hcap : off.toNat + size ≤ file.metadata.capacity := by
          have h := (not_or.mp hgo).2
          rw [add64_of_lt hc] at h
          lia
        rw [hps] at hp hz h2 hsmall hpos
        have hbound : file.metadata.pageIdx * 2 ^ k + file.metadata.capacity < 2 ^ 32 := by
          have h3 : (file.metadata.pageIdx + file.metadata.capacity / 2 ^ k) * 2 ^ k < s.pageCount * 2 ^ k := by
            apply Nat.mul_lt_mul_of_pos_right _ hpos
            unfold TocFile.stop at h2
            rw [hps] at hT
            lia
          rw [Nat.add_mul, Nat.div_mul_cancel hz.2.1] at h3
          lia
        obtain ⟨h3, h4⟩ := writtenPages_bound hz.2.1 hcap hbound hp
        unfold TocFile.stop at h2
        rw [hps] at h1 ⊢
        lia
    · cases hp
  | truncate handle len => cases hp

end SpifsCall

/-! ## the table in use -/

/-- the entries of a table are read back as they were written -/
theorem decode_slots {n : Nat} {files : List TocFile} (F : ∀ f ∈ files, f.Fits) :
    ((tocSlots n files).map TocFile.encode).map TocFile.decode = tocSlots n files := by
  have hid : ∀ f ∈ tocSlots n files, (TocFile.decode ∘ TocFile.encode) f = id f := by
    intro f hf
    apply TocFile.decode_encode
    rcases List.mem_append.mp hf with hf | hf
    · exact F f (List.mem_of_mem_take hf)
    · rw [List.eq_of_mem_replicate hf]
      exact ⟨by decide, by decide, by decide, rfl⟩
  rw [List.map_map, List.map_congr_left hid, List.map_id]

/-- a geometry that `spifs_commit_toc` can fill -/
structure Geometry (dev : Bio.Bdev) (ps pc n : Nat) : Prop where
  info : getDevicePageInfo dev = .ok (ps, pc)
  full : 2 ≤ ps / SPIFS_ENTRY_LENGTH
  whole : ps / SPIFS_ENTRY_LENGTH ∣ n + 2
  small : pc * ps ≤ 2 ^ 32
  count : n < 2 ^ 32

namespace Geometry
variable {dev : Bio.Bdev} {ps pc n : Nat}

theorem pc_lt (G : Geometry dev ps pc n) : pc < 2 ^ 32 := (getDevicePageInfo_spec G.info).2

theorem page_eq (G : Geometry dev ps pc n) : ps = SPIFS_ENTRY_LENGTH * (ps / SPIFS_ENTRY_LENGTH) := by
  obtain ⟨k, hk, h⟩ := (getDevicePageInfo_spec G.info).1
  have h5 : 5 ≤ k := by
    by_contra h5
    have h2 := G.full
    have hle : 2 ^ k ≤ 2 ^ 4 := Nat.pow_le_pow_right (by decide) (by lia)
    rw [h, Nat.div_eq_of_lt (show 2 ^ k < SPIFS_ENTRY_LENGTH from Nat.lt_of_le_of_lt hle (by decide))] at h2
    lia
  have hd : SPIFS_ENTRY_LENGTH ∣ ps := by
    rw [h]
    exact Nat.pow_dvd_pow 2 h5
  exact (Nat.mul_div_cancel' hd).symm

/-- the pages of a table hold its slots exactly -/
theorem slots (G : Geometry dev ps pc n) : tocPageCount ps n * (ps / SPIFS_ENTRY_LENGTH) = n + 2 := by
  have hpos : 0 < ps / SPIFS_ENTRY_LENGTH := by
    have := G.full
    omega
  have h : tocPageCount ps n = (n + 2) / (ps / SPIFS_ENTRY_LENGTH) := by
    unfold tocPageCount
    conv_lhs => rw [G.page_eq]
    rw [Nat.mul_comm SPIFS_ENTRY_LENGTH, Nat.mul_div_mul_right _ _ (by decide)]
  rw [h]
  exact Nat.div_mul_cancel G.whole

theorem pages_pos (G : Geometry dev ps pc n) : 0 < tocPageCount ps n := by
  rcases Nat.eq_zero_or_pos (tocPageCount ps n) with h | h
  · have := G.slots
    rw [h] at this
    omega
  · exact h

theorem tocPages_length (G : Geometry dev ps pc n) (crc32 : Nat → Slot → Nat) (g : Nat) {files : List TocFile}
    (hl : files.length ≤ n) : (tocPages crc32 ps n g files).length = tocPageCount ps n := by
  have hlen : ((tocSlots n files).map TocFile.encode).length = n := by
    rw [List.length_map, tocSlots_length hl]
  have h2 := G.full
  have hfull := packPages_full h2 (tocFooter (crcSlots crc32 (tocHeader n g :: (tocSlots n files).map TocFile.encode)))
    ((tocSlots n files).map TocFile.encode) (show [tocHeader n g].length ≤ ps / SPIFS_ENTRY_LENGTH by
      rw [List.length_singleton]; lia) (by
      rw [List.length_singleton, hlen, Nat.add_comm 1]
      exact G.whole)
  have hcount := flatten_length_full hfull
  rw [packPages_flatten, List.length_append, List.length_append, List.length_singleton, List.length_singleton, hlen]
    at hcount
  have hs := G.slots
  apply Nat.eq_of_mul_eq_mul_right (show 0 < ps / SPIFS_ENTRY_LENGTH by lia)
  rw [hs]
  exact hcount.symm.trans (by lia)

end Geometry

/-- the pages of the two tables are different ones -/
theorem tocAddr_flip {pc T i j : Nat} (pos : TocPosition) (hT : 2 * T ≤ pc) (hpc : pc < 2 ^ 32) (hi : i < T) (hj : j < T) :
    tocAddr pc pos i ≠ tocAddr pc pos.flip j := by
  have hback : ∀ m < T, tocAddr pc .back m = pc - 1 - m := by
    intro m hm
    rw [tocAddr, sub32_of_le hpc (by omega), sub32_of_le (by omega) (by omega)]
  cases pos with
  | front =>
    show i ≠ tocAddr pc .back j
    rw [hback j hj]
    omega
  | back =>
    show tocAddr pc .back i ≠ j
    rw [hback i hi]
    omega

/-- a page between the tables is in none of them -/
theorem tocAddr_outside {pc T i p : Nat} (pos : TocPosition) (hT : 2 * T ≤ pc) (hpc : pc < 2 ^ 32) (hi : i < T)
    (hp : T ≤ p ∧ p + T < pc) : tocAddr pc pos i ≠ p := by
  cases pos with
  | front =>
    show i ≠ p
    omega
  | back =>
    rw [tocAddr, sub32_of_le hpc (by omega), sub32_of_le (by omega) (by omega)]
    omega

section
variable (crc32 : Nat → Slot → Nat) (ps pc n : Nat)

/-- **The table in use**: the end and the generation that a mount selects, and the files it finds there. -/
structure Current (d : Pages) (pos : TocPosition) (g : Nat) (files : List TocFile) : Prop where
  selected : selectToc (getTocGeneration crc32 ps pc d .front) (getTocGeneration crc32 ps pc d .back) = some pos
  entries : ∃ E, readToc crc32 ps pc d pos = some (g, E) ∧ E.length = n ∧
    (E.map TocFile.decode).filter (fun e => e.capacity ≠ 0) = files
  pos : 0 < g
  fits : ∀ f ∈ files, f.Fits
  laid : Laid ps pc n files

end

namespace Current
variable {crc32 : Nat → Slot → Nat} {dev : Bio.Bdev} {ps pc n g : Nat} {d d' : Pages} {pos : TocPosition}
  {files : List TocFile}

/-- the file system in memory is the one that was mounted, up to the files -/
structure Mounted (ps pc n : Nat) (pos : TocPosition) (g : Nat) (s : Spifs) : Prop where
  ok : SpifsOk s
  fit : FilesFit s
  pageSize : s.pageSize = ps
  pageCount : s.pageCount = pc
  numEntries : s.numEntries = n
  tocPosition : s.tocPosition = pos
  generation : s.generation = g

/-- **A mount finds the table in use.** -/
theorem mount (G : Geometry dev ps pc n) (C : Current crc32 ps pc n d pos g files) :
    ∃ s, spifsMount crc32 dev d = .ok s ∧ s.files.map (·.metadata) = files ∧ Mounted ps pc n pos g s := by
  obtain ⟨E, hread, hlen, hfiles⟩ := C.entries
  obtain ⟨⟨k, hk, hps⟩, hpc⟩ := getDevicePageInfo_spec G.info
  have hcheck := C.laid.consistent (hps ▸ Nat.two_pow_pos k) hpc
  rw [spifsMount_eq G.info C.selected hread]
  have hs : spifsMountTable dev g pos (E.map TocFile.decode) = .ok ⟨ps, pc, g, (E.map TocFile.decode).length, pos,
      files.mapIdx SpifsFile.mk, files.length⟩ := by
    unfold spifsMountTable
    rw [G.info]
    dsimp only
    rw [hfiles, if_pos hcheck]
  refine ⟨_, hs, mapIdx_metadata files, ?_, ?_, rfl, rfl, ?_, rfl, rfl⟩
  · apply mount_ok _ hs
    intro ps' pc' hinfo _
    obtain ⟨rfl, rfl⟩ := Prod.mk.inj (Except.ok.inj (G.info.symm.trans hinfo))
    rw [hfiles, List.length_map, hlen]
    exact C.laid
  · intro f hf
    have hm : f.metadata ∈ (files.mapIdx SpifsFile.mk).map (·.metadata) := List.mem_map_of_mem hf
    rw [mapIdx_metadata] at hm
    exact C.fits _ hm
  · show (E.map TocFile.decode).length = n
    rw [List.length_map, hlen]

/-- the other table changed, and not accepted if it was not -/
theorem keep (G : Geometry dev ps pc n) (C : Current crc32 ps pc n d pos g files)
    (hp : ∀ j < tocPageCount ps n, d' (tocAddr pc pos j) = d (tocAddr pc pos j))
    (hq : readToc crc32 ps pc d' pos.flip = none ∨ readToc crc32 ps pc d' pos.flip = readToc crc32 ps pc d pos.flip) :
    Current crc32 ps pc n d' pos g files := by
  obtain ⟨E, hread, hlen, hfiles⟩ := C.entries
  have hread' : readToc crc32 ps pc d' pos = some (g, E) := by
    apply readToc_congr hread _ hp
    rw [G.slots, hlen]
  have hg := getTocGeneration_some hread
  have hg' := getTocGeneration_some hread'
  have hother : getTocGeneration crc32 ps pc d' pos.flip = CORRUPT_TOC ∨
      getTocGeneration crc32 ps pc d' pos.flip = getTocGeneration crc32 ps pc d pos.flip := by
    refine hq.imp ?_ ?_ <;> intro h <;> unfold getTocGeneration <;> rw [h]
  refine ⟨?_, ⟨E, hread', hlen, hfiles⟩, C.pos, C.fits, C.laid⟩
  have hsel := C.selected
  have h0 := C.pos
  unfold CORRUPT_TOC at hother
  cases pos with
  | front =>
    change getTocGeneration crc32 ps pc d' .back = 0 ∨
      getTocGeneration crc32 ps pc d' .back = getTocGeneration crc32 ps pc d .back at hother
    rw [selectToc_front] at hsel ⊢
    lia
  | back =>
    change getTocGeneration crc32 ps pc d' .front = 0 ∨
      getTocGeneration crc32 ps pc d' .front = getTocGeneration crc32 ps pc d .front at hother
    rw [selectToc_back] at hsel ⊢
    lia

/-- the other table written whole -/
theorem swap (G : Geometry dev ps pc n) (C : Current crc32 ps pc n d pos g files) {files' : List TocFile}
    (F : ∀ f ∈ files', f.Fits) (L : Laid ps pc n files') (hl : files'.length ≤ n)
    (hp : ∀ j < tocPageCount ps n, d' (tocAddr pc pos j) = d (tocAddr pc pos j))
    (hq : readToc crc32 ps pc d' pos.flip = some (g + 1, (tocSlots n files').map TocFile.encode)) :
    Current crc32 ps pc n d' pos.flip (g + 1) files' := by
  obtain ⟨E, hread, hlen, hfiles⟩ := C.entries
  have hread' : readToc crc32 ps pc d' pos = some (g, E) := by
    apply readToc_congr hread _ hp
    rw [G.slots, hlen]
  have hg := getTocGeneration_some hread'
  have hg' := getTocGeneration_some hq
  refine ⟨?_, ⟨_, hq, ?_, ?_⟩, Nat.succ_pos g, F, L⟩
  · cases pos with
    | front =>
      change getTocGeneration crc32 ps pc d' .back = g + 1 at hg'
      refine selectToc_back.mpr ?_
      lia
    | back =>
      change getTocGeneration crc32 ps pc d' .front = g + 1 at hg'
      refine selectToc_front.mpr ?_
      lia
  · rw [List.length_map, tocSlots_length hl]
  · rw [decode_slots F]
    exact tocSlots_filter hl fun f hf => (L.sized f hf).1

end Current

/-! ## runs -/

section
variable {crc32 : Nat → Slot → Nat} {dev : Bio.Bdev} {ps pc n g : Nat} {d d' : Pages} {pos : TocPosition}
  {files : List TocFile} {s : Spifs}

/-- the pages before the commit: the tables are as they were -/
theorem touched_tables (G : Geometry dev ps pc n) (M : Current.Mounted ps pc n pos g s) {c : SpifsCall}
    (hc : c.Fits s) (data : Pages) (pos' : TocPosition) {j : Nat} (hj : j < tocPageCount ps n) :
    (fun p => if p ∈ c.touched s then data p else d p) (tocAddr pc pos' j) = d (tocAddr pc pos' j) := by
  apply if_neg
  intro hp
  have hT := M.ok.laid.tables_le
  have hsmall := G.small
  have hpos := G.pages_pos
  rw [← M.pageSize, ← M.pageCount] at hsmall
  rw [← M.pageSize, ← M.numEntries] at hpos hj
  have hb := SpifsCall.touched_between M.ok hc hsmall hpos hp
  refine tocAddr_outside pos' hT M.ok.count_lt hj hb ?_
  rw [M.pageCount]

/-- pages written over the table that is not in use leave the one in use -/
theorem overwrite_other (G : Geometry dev ps pc n) (M : Current.Mounted ps pc n pos g s) {pages : List (List Slot)}
    (hl : pages.length ≤ tocPageCount ps n) {j : Nat} (hj : j < tocPageCount ps n) :
    overwrite s pages d (tocAddr pc pos j) = d (tocAddr pc pos j) := by
  have hT := M.ok.laid.tables_le
  rw [M.pageSize, M.numEntries, M.pageCount] at hT
  unfold overwrite
  rw [M.pageCount, M.tocPosition]
  apply storePages_other
  intro i hi
  rw [Nat.zero_add]
  exact tocAddr_flip pos hT G.pc_lt hj (by omega)

/-- **A table written whole** is accepted, with the next generation. -/
theorem overwrite_read (G : Geometry dev ps pc n) (M : Current.Mounted ps pc n pos g s) (hg : g + 1 < 2 ^ 32)
    (hl : files.length ≤ n) : readToc crc32 ps pc (overwrite s (commitPages crc32 s files) d) pos.flip =
      some (g + 1, (tocSlots n files).map TocFile.encode) := by
  have hT := M.ok.laid.tables_le
  rw [M.pageSize, M.numEntries, M.pageCount] at hT
  have hgen : add32 s.generation 1 = g + 1 := by
    rw [M.generation]
    exact add32_of_lt hg
  have hlen := G.tocPages_length crc32 (g + 1) hl
  unfold overwrite commitPages
  rw [M.pageSize, M.numEntries, M.pageCount, M.tocPosition, hgen]
  refine readToc_tocPages G.count hg G.full G.whole hl G.pc_lt (by lia) ?_
  intro j hj
  have hinj : ∀ i j, i < j → j < 0 + (tocPages crc32 ps n (g + 1) files).length →
      tocAddr pc pos.flip i ≠ tocAddr pc pos.flip j :=
    fun i j hij hj => tocAddr_ne pos.flip hij (by lia) G.pc_lt
  have h := storePages_at (d := d) _ hinj j hj
  rw [Nat.zero_add] at h
  exact h

/-- the table that a call commits -/
theorem toc_ok (M : Current.Mounted ps pc n pos g s) {c : SpifsCall} (hc : c.Fits s) (ht : c.toc s = some files) :
    (∀ f ∈ files, f.Fits) ∧ Laid ps pc n files ∧ files.length ≤ n := by
  obtain ⟨s', hr, rfl, -, -⟩ := SpifsCall.run_some ht
  obtain ⟨I, F, h1, h2, h3⟩ := SpifsCall.run_ok M.ok M.fit hc hr
  have L := I.laid
  rw [h1, h2, h3, M.pageSize, M.pageCount, M.numEntries] at L
  refine ⟨?_, L, ?_⟩
  · intro f hf
    obtain ⟨a, ha, rfl⟩ := List.mem_map.mp hf
    exact F a ha
  · have := I.room
    rw [h3, M.numEntries] at this
    rw [List.length_map]
    exact this

/-- **One call**: the table in use afterwards is the one before, or the one committed. -/
theorem call_current (G : Geometry dev ps pc n) (C : Current crc32 ps pc n d pos g files)
    (M : Current.Mounted ps pc n pos g s) {c : SpifsCall} {data : Pages} {e : CommitEnd}
    (hsound : (DiskOp.call c data e).Sound crc32 ⟨d, some s⟩) {σ' : SpifsDisk}
    (h : diskCall crc32 d s c data e = some σ') : ∃ pos' g' files', Current crc32 ps pc n σ'.pages pos' g' files' ∧
      (∀ s', σ'.fs = some s' → Current.Mounted ps pc n pos' g' s') ∧ (files' = files ∨ c.toc s = some files') ∧
      (e = .done → ∀ T, c.toc s = some T → files' = T) := by
  obtain ⟨⟨hg, hdet⟩, hc, hfail⟩ := hsound
  have hread := hdet σ' h
  dsimp only at hread
  rw [M.pageSize, M.pageCount, M.tocPosition] at hread
  rw [M.generation] at hg
  -- the pages of the table in use are as they were
  have hd1 : ∀ j < tocPageCount ps n,
      (fun p => if p ∈ c.touched s then data p else d p) (tocAddr pc pos j) = d (tocAddr pc pos j) :=
    fun j hj => touched_tables G M hc data pos hj
  have hlen : ∀ T, c.toc s = some T → (commitPages crc32 s T).length = tocPageCount ps n := by
    intro T hT
    unfold commitPages
    rw [M.pageSize, M.numEntries]
    exact G.tocPages_length crc32 _ (toc_ok M hc hT).2.2
  -- the state in memory, by how the commit ended
  have hfalse : ∀ s', c.run s false = some s' → Current.Mounted ps pc n pos g s' := by
    intro s' hr
    obtain ⟨I, F, h1, h2, h3⟩ := SpifsCall.run_ok M.ok M.fit hc hr
    obtain ⟨h4, h5⟩ := SpifsCall.run_false hr
    exact ⟨I, F, h1.trans M.pageSize, h2.trans M.pageCount, h3.trans M.numEntries, h5.trans M.tocPosition,
      h4.trans M.generation⟩
  generalize hD : (fun p => if p ∈ c.touched s then data p else d p) = d1 at hd1
  have hover : ∀ pages : List (List Slot), pages.length ≤ tocPageCount ps n → ∀ j < tocPageCount ps n,
      overwrite s pages d1 (tocAddr pc pos j) = d (tocAddr pc pos j) := by
    intro pages hl j hj
    rw [overwrite_other G M hl hj, hd1 j hj]
  have hcut : ∀ T, c.toc s = some T → ∀ k torn, k < (commitPages crc32 s T).length →
      ((commitPages crc32 s T).take k ++ [torn]).length ≤ tocPageCount ps n := by
    intro T hT k torn hk
    rw [List.length_append, List.length_take, List.length_singleton, ← hlen T hT]
    lia
  -- power lost: either table
  have hlost : σ'.fs = none →
      (∀ j < tocPageCount ps n, σ'.pages (tocAddr pc pos j) = d (tocAddr pc pos j)) → e ≠ .done →
      ∃ pos' g' files', Current crc32 ps pc n σ'.pages pos' g' files' ∧
        (∀ s', σ'.fs = some s' → Current.Mounted ps pc n pos' g' s') ∧ (files' = files ∨ c.toc s = some files') ∧
        (e = .done → ∀ T, c.toc s = some T → files' = T) := by
    intro hfs hp he
    have hno : ∀ pos' g' s', σ'.fs = some s' → Current.Mounted ps pc n pos' g' s' := by
      intro _ _ s' hs'
      rw [hfs] at hs'
      cases hs'
    rcases hread with hq | hq | ⟨T, hT, d'', hq⟩
    · exact ⟨pos, g, files, C.keep G hp (.inl hq), hno _ _, .inl rfl, fun h => absurd h he⟩
    · exact ⟨pos, g, files, C.keep G hp (.inr hq), hno _ _, .inl rfl, fun h => absurd h he⟩
    · obtain ⟨F, L, hl⟩ := toc_ok M hc hT
      refine ⟨pos.flip, g + 1, T, C.swap G F L hl hp ?_, hno _ _, .inr hT, fun h => absurd h he⟩
      rw [hq]
      exact overwrite_read G M hg hl
  have hσ := h
  unfold diskCall at h
  dsimp only at h
  rw [hD] at h
  cases e with
  | lost =>
    obtain ⟨s', -, rfl⟩ := Option.map_eq_some_iff.mp h
    refine hlost rfl hd1 ?_
    intro h
    cases h
  | done =>
    cases hT : c.toc s with
    | none =>
      rw [hT] at h
      obtain ⟨s', hr, rfl⟩ := Option.map_eq_some_iff.mp h
      have hq : readToc crc32 ps pc d1 pos.flip = none ∨
          readToc crc32 ps pc d1 pos.flip = readToc crc32 ps pc d pos.flip := by
        rcases hread with hq | hq | ⟨T, hT', -⟩
        · exact .inl hq
        · exact .inr hq
        · rw [hT] at hT'
          cases hT'
      refine ⟨pos, g, files, C.keep G hd1 hq, ?_, .inl rfl, fun _ T h => by cases h⟩
      intro s1 hs1
      obtain rfl := Option.some.inj hs1
      obtain ⟨I, F, h1, h2, h3⟩ := SpifsCall.run_ok M.ok M.fit hc hr
      obtain ⟨h4, h5⟩ := SpifsCall.run_none hT hr
      exact ⟨I, F, h1.trans M.pageSize, h2.trans M.pageCount, h3.trans M.numEntries, h5.trans M.tocPosition,
        h4.trans M.generation⟩
    | some T =>
      rw [hT] at h
      obtain ⟨s', hr, rfl⟩ := Option.map_eq_some_iff.mp h
      obtain ⟨F, L, hl⟩ := toc_ok M hc hT
      refine ⟨pos.flip, g + 1, T, C.swap G F L hl (hover _ (Nat.le_of_eq (hlen T hT))) ?_, ?_, .inr rfl, ?_⟩
      · exact overwrite_read G M hg hl
      · intro s1 hs1
        obtain rfl := Option.some.inj hs1
        obtain ⟨I, F, h1, h2, h3⟩ := SpifsCall.run_ok M.ok M.fit hc hr
        obtain ⟨s2, hr2, -, h4, h5⟩ := SpifsCall.run_some hT
        obtain rfl := Option.some.inj (hr.symm.trans hr2)
        refine ⟨I, F, h1.trans M.pageSize, h2.trans M.pageCount, h3.trans M.numEntries, ?_, ?_⟩
        · rw [h5, M.tocPosition]
        · rw [h4, M.generation]
          exact add32_of_lt hg
      · intro _ T' hT'
        exact Option.some.inj hT'
  | fail k torn =>
    cases hT : c.toc s with
    | none =>
      rw [hT] at h
      cases h
    | some T =>
      rw [hT] at h
      dsimp only at h
      split at h
      · rename_i hk
        obtain ⟨s', hr, rfl⟩ := Option.map_eq_some_iff.mp h
        have hp := hover _ (hcut T hT k torn hk)
        have hq := hread.imp_right fun hr => hr.resolve_right (hfail k torn rfl _ hσ)
        refine ⟨pos, g, files, C.keep G hp hq, ?_, .inl rfl, fun h => by cases h⟩
        intro s1 hs1
        obtain rfl := Option.some.inj hs1
        exact hfalse _ hr
      · cases h
  | crash k torn =>
    cases hT : c.toc s with
    | none =>
      rw [hT] at h
      cases h
    | some T =>
      rw [hT] at h
      dsimp only at h
      split at h
      · rename_i hk
        obtain rfl := Option.some.inj h
        rw [← hT]
        refine hlost rfl (hover _ (hcut T hT k torn hk)) ?_
        intro h
        cases h
      · cases h

end

section
variable (crc32 : Nat → Slot → Nat) (dev : Bio.Bdev)

/-- a mount finds a table, and it is the one that the mounted file system has in use -/
def DiskInv (σ : SpifsDisk) : Prop :=
  ∃ ps pc n pos g files, Geometry dev ps pc n ∧ Current crc32 ps pc n σ.pages pos g files ∧
    ∀ s, σ.fs = some s → Current.Mounted ps pc n pos g s

/-- the table that a step commits -/
def DiskOp.toc : SpifsDisk → DiskOp → Option (List TocFile)
  | ⟨_, some s⟩, .call c _ _ => c.toc s
  | _, _ => none

end

section
variable {crc32 : Nat → Slot → Nat} {dev : Bio.Bdev}

theorem readSlots_mem {ps pc : Nat} {d : Pages} {pos : TocPosition} : ∀ {n i : Nat} {l : List Slot},
    readSlots ps pc d pos i n = some l → ∀ b ∈ l, ∃ p, b ∈ d p := by
  intro n
  induction n with
  | zero =>
    intro i l h b hb
    rw [← Option.some.inj h] at hb
    cases hb
  | succ n ih =>
    intro i l h b hb
    obtain ⟨a, ha, h⟩ := Option.bind_eq_some_iff.mp h
    obtain ⟨m, hm, rfl⟩ := Option.map_eq_some_iff.mp h
    rcases List.mem_cons.mp hb with rfl | hb
    · unfold slotAt at ha
      dsimp only at ha
      split at ha
      · exact ⟨_, List.mem_of_getElem? ha⟩
      · cases ha
    · exact ih hm b hb

theorem inv_of_mountable {d : Pages} (h : Mountable crc32 dev d) : DiskInv crc32 dev ⟨d, none⟩ := by
  obtain ⟨h32, s, hs, I, hfull, hwhole, hsmall⟩ := h
  obtain ⟨ps, pc, pos, g, E, hinfo, hsel, hread, hg⟩ := spifsMount_ok hs
  rw [spifsMount_eq hinfo hsel hread] at hs
  obtain ⟨ps', pc', hinfo', -, rfl⟩ := mount_eq hs
  obtain ⟨rfl, rfl⟩ := Prod.mk.inj (Except.ok.inj (hinfo.symm.trans hinfo'))
  obtain ⟨header, -, -, -, -, hn, -, hslots, -, -⟩ := readToc_some hread
  have L := I.laid
  dsimp only at L hfull hwhole hsmall
  rw [mapIdx_metadata, List.length_map] at L
  rw [List.length_map] at hwhole
  refine ⟨ps, pc, E.length, pos, g, _, ⟨hinfo, hfull, hwhole, hsmall, ?_⟩,
    ⟨hsel, ⟨E, hread, rfl, rfl⟩, hg, ?_, L⟩, fun s h => by cases h⟩
  · rw [← hn]
    exact u32_lt header 8
  · intro f hf
    obtain ⟨b, hb, rfl⟩ := List.mem_map.mp (List.mem_of_mem_filter hf)
    obtain ⟨p, hp⟩ := readSlots_mem hslots b hb
    exact TocFile.decode_fits (h32 p b hp)

theorem tableOf_current {ps pc n g : Nat} {d : Pages} {pos : TocPosition} {files : List TocFile}
    (G : Geometry dev ps pc n) (C : Current crc32 ps pc n d pos g files) : tableOf crc32 dev d = some files := by
  obtain ⟨s, hs, hf, -⟩ := C.mount G
  rw [tableOf, hs]
  exact congrArg some hf

/-- every step keeps the invariant, and a mount afterwards finds one of two tables -/
theorem step_inv {σ σ' : SpifsDisk} {a : DiskOp} (I : DiskInv crc32 dev σ) (hg : a.Sound crc32 σ)
    (h : diskStep crc32 dev σ a = some σ') : DiskInv crc32 dev σ' ∧
      ∃ files, tableOf crc32 dev σ.pages = some files ∧ ∃ files', tableOf crc32 dev σ'.pages = some files' ∧
        (files' = files ∨ a.toc σ = some files') ∧
        ∀ c data, a = .call c data .done → ∀ T, a.toc σ = some T → files' = T := by
  obtain ⟨ps, pc, n, pos, g, files, G, C, M⟩ := I
  obtain ⟨d, fs⟩ := σ
  cases fs with
  | none =>
    cases a with
    | mount =>
      obtain ⟨s, hs, -, hm⟩ := C.mount G
      rw [diskStep, hs] at h
      obtain rfl := Option.some.inj h
      refine ⟨⟨ps, pc, n, pos, g, files, G, C, ?_⟩, files, tableOf_current G C, files, tableOf_current G C, .inl rfl, ?_⟩
      · intro s' hs'
        obtain rfl := Option.some.inj hs'
        exact hm
      · intro c data h
        cases h
    | unmount | call => cases h
  | some s =>
    cases a with
    | mount => cases h
    | unmount =>
      obtain rfl := Option.some.inj h
      refine ⟨⟨ps, pc, n, pos, g, files, G, C, fun s' h => by cases h⟩, files, tableOf_current G C, files,
        tableOf_current G C, .inl rfl, ?_⟩
      intro c data h
      cases h
    | call c data e =>
      obtain ⟨pos', g', files', C', M', hf, hd⟩ := call_current G C (M s rfl) hg h
      refine ⟨⟨ps, pc, n, pos', g', files', G, C', M'⟩, files, tableOf_current G C, files', tableOf_current G C', hf, ?_⟩
      intro c' data' he T hT
      have he' : e = .done := by injection he
      exact hd he' T hT

/-- **The commit of a table is atomic**: in every run of calls, mounts, failures and losses of power, a mount after
a step finds the table it would have found before, or the one that the step commits, and the latter if it ends. -/
theorem commit_atomic {σ σ' : SpifsDisk} {a : DiskOp}
    (h : (spifsDisk crc32 dev).Run (fun σ a => a.Sound crc32 σ) σ) (hg : a.Sound crc32 σ)
    (hst : diskStep crc32 dev σ a = some σ') :
    ∃ files, tableOf crc32 dev σ.pages = some files ∧ ∃ files', tableOf crc32 dev σ'.pages = some files' ∧
      (files' = files ∨ a.toc σ = some files') ∧
      ∀ c data, a = .call c data .done → ∀ T, a.toc σ = some T → files' = T := by
  have I : DiskInv crc32 dev σ := by
    apply h.invariant (I := DiskInv crc32 dev)
    · rintro ⟨d, fs⟩ ⟨rfl, hm⟩
      exact inv_of_mountable hm
    · intro s a s' I hg hst
      exact (step_inv I hg hst).1
  exact (step_inv I hg hst).2

/-! ## a new file system -/

/-- the device after `spifs_format`: a commit over the back table, and one over the front table -/
def formatPages (crc32 : Nat → Slot → Nat) (ps pc : Nat) (table : List TocFile) (d : Pages) : Pages :=
  let files := table.filter fun e => e.capacity ≠ 0
  storePages pc .front 0 (tocPages crc32 ps table.length 3 files)
    (storePages pc .back 0 (tocPages crc32 ps table.length 2 files) d)

theorem storePages_mem {pc : Nat} {pos : TocPosition} (pages : List (List Slot)) : ∀ {k : Nat} {d : Pages} (a : Nat),
    storePages pc pos k pages d a = d a ∨ storePages pc pos k pages d a ∈ pages := by
  induction pages with
  | nil =>
    intro k d a
    exact .inl rfl
  | cons page pages ih =>
    intro k d a
    rcases ih (k := k + 1) (d := Function.update d (tocAddr pc pos k) page) a with h | h
    · by_cases e : a = tocAddr pc pos k
      · right
        rw [storePages, h, e, Function.update_self]
        exact .head _
      · left
        rw [storePages, h, Function.update_of_ne e]
    · exact .inr (.tail _ h)

/-- the slots that a commit writes have 32 bytes -/
theorem tocPages_slots {ps n g : Nat} {files : List TocFile} (F : ∀ f ∈ files, f.Fits) {page : List Slot}
    (hp : page ∈ tocPages crc32 ps n g files) {b : Slot} (hb : b ∈ page) : b.length = SPIFS_ENTRY_LENGTH := by
  have hm : b ∈ (tocPages crc32 ps n g files).flatten := List.mem_flatten.mpr ⟨page, hp, hb⟩
  unfold tocPages at hm
  dsimp only at hm
  rw [packPages_flatten] at hm
  rcases List.mem_append.mp hm with hm | hm
  · rw [List.mem_singleton.mp hm]
    rfl
  rcases List.mem_append.mp hm with hm | hm
  · obtain ⟨f, hf, rfl⟩ := List.mem_map.mp hm
    have hname : f.filename.length = MAX_FILENAME_LENGTH := by
      rcases List.mem_append.mp hf with hf | hf
      · exact (F f (List.mem_of_mem_take hf)).2.2.2
      · rw [List.eq_of_mem_replicate hf]
        rfl
    unfold TocFile.encode
    rw [List.length_append, List.length_append, List.length_append, hname]
    rfl
  · rw [List.mem_singleton.mp hm]
    rfl

/-- **A format** of a device with room for both tables leaves one that mounts. -/
theorem mountable_format {tocPages : Nat} {table : List TocFile} {ps pc : Nat}
    (hinfo : getDevicePageInfo dev = .ok (ps, pc)) (hfit : tocPages * ps < 2 ^ 32)
    (h : spifsFormat dev tocPages true = .ok table) (hroom : 2 * tocPages ≤ pc) (hfull : 2 ≤ ps / SPIFS_ENTRY_LENGTH)
    (hsmall : pc * ps ≤ 2 ^ 32) {d : Pages} (hd : ∀ p, ∀ b ∈ d p, b.length = SPIFS_ENTRY_LENGTH) :
    Mountable crc32 dev (formatPages crc32 ps pc table d) := by
  obtain ⟨⟨k, hk, hps⟩, hpc⟩ := getDevicePageInfo_spec hinfo
  have hpos : 0 < ps := hps ▸ Nat.two_pow_pos k
  obtain ⟨-, hTpos, hTpc, n, hn, hn2, hnlt, hT, rfl⟩ := format_spec hinfo hfit h
  have G : Geometry dev ps pc n := ⟨hinfo, hfull, hn2 ▸ Nat.dvd_mul_left _ _, hsmall, hnlt⟩
  have L := Laid.tables hpos hT hTpos hroom (padName frontTocLabel) (padName backTocLabel)
  generalize hfiles : [(⟨0, tocPages * ps, tocPages * ps, padName frontTocLabel⟩ : TocFile),
    ⟨pc - tocPages, tocPages * ps, tocPages * ps, padName backTocLabel⟩] = files at *
  have hlen : files.length ≤ n := by
    rw [← hfiles]
    exact hn
  have hF : ∀ f ∈ files, f.Fits := by
    intro f hf
    rw [← hfiles] at hf
    rcases List.mem_cons.mp hf with rfl | hf
    · exact ⟨by dsimp only; lia, hfit, hfit, padName_length _⟩
    · rw [List.mem_singleton.mp hf]
      exact ⟨by dsimp only; lia, hfit, hfit, padName_length _⟩
  have hfilter : (tocSlots n files).filter (fun e => e.capacity ≠ 0) = files :=
    tocSlots_filter hlen fun f hf => (L.sized f hf).1
  unfold formatPages
  dsimp only
  rw [hfilter, tocSlots_length hlen]
  have hl2 := G.tocPages_length crc32 2 hlen
  have hl3 := G.tocPages_length crc32 3 hlen
  rw [hT] at hl2 hl3
  have hne : ∀ (p : TocPosition) g, (LkHv.tocPages crc32 ps n g files).length = tocPages →
      ∀ i j, i < j → j < 0 + (LkHv.tocPages crc32 ps n g files).length → tocAddr pc p i ≠ tocAddr pc p j :=
    fun p g hl i j hij hj => tocAddr_ne p hij (by lia) hpc
  have hback : readToc crc32 ps pc (storePages pc .front 0 (LkHv.tocPages crc32 ps n 3 files)
      (storePages pc .back 0 (LkHv.tocPages crc32 ps n 2 files) d)) .back =
        some (2, (tocSlots n files).map TocFile.encode) := by
    refine readToc_tocPages hnlt (by decide) hfull G.whole hlen hpc (by lia) fun j hj => ?_
    rw [storePages_other]
    · have h := storePages_at (d := d) _ (hne .back 2 hl2) j hj
      rw [Nat.zero_add] at h
      exact h
    · intro i hi
      rw [Nat.zero_add]
      exact tocAddr_flip .back hroom hpc (by lia) (by lia)
  have hfront : readToc crc32 ps pc (storePages pc .front 0 (LkHv.tocPages crc32 ps n 3 files)
      (storePages pc .back 0 (LkHv.tocPages crc32 ps n 2 files) d)) .front =
        some (3, (tocSlots n files).map TocFile.encode) := by
    refine readToc_tocPages hnlt (by decide) hfull G.whole hlen hpc (by lia) fun j hj => ?_
    have h := storePages_at (d := storePages pc .back 0 (LkHv.tocPages crc32 ps n 2 files) d) _ (hne .front 3 hl3) j hj
    rw [Nat.zero_add] at h
    exact h
  have hslots : ∀ p, ∀ b ∈ storePages pc .front 0 (LkHv.tocPages crc32 ps n 3 files)
      (storePages pc .back 0 (LkHv.tocPages crc32 ps n 2 files) d) p, b.length = SPIFS_ENTRY_LENGTH := by
    intro p b hb
    rcases storePages_mem (LkHv.tocPages crc32 ps n 3 files) p with h | h
    · rw [h] at hb
      rcases storePages_mem (LkHv.tocPages crc32 ps n 2 files) p with h | h
      · rw [h] at hb
        exact hd p b hb
      · exact tocPages_slots hF h hb
    · exact tocPages_slots hF h hb
  generalize storePages pc .front 0 (LkHv.tocPages crc32 ps n 3 files)
      (storePages pc .back 0 (LkHv.tocPages crc32 ps n 2 files) d) = d' at *
  have C : Current crc32 ps pc n d' .front 3 files := by
    refine ⟨selectToc_front.mpr ?_, ⟨_, hfront, ?_, ?_⟩, by decide, hF, L⟩
    · rw [getTocGeneration_some hback, getTocGeneration_some hfront]
      decide
    · rw [List.length_map, tocSlots_length hlen]
    · rw [decode_slots hF]
      exact hfilter
  obtain ⟨s, hs, -, M⟩ := C.mount G
  refine ⟨hslots, s, hs, M.ok, ?_, ?_, ?_⟩
  · rw [M.pageSize]
    exact hfull
  · rw [M.pageSize, M.numEntries]
    exact G.whole
  · rw [M.pageSize, M.pageCount]
    exact hsmall

/-- a call whose commit ends -/
theorem diskCall_done {d : Pages} {s : Spifs} {c : SpifsCall} {data : Pages} {T : List TocFile} (ht : c.toc s = some T) :
    diskCall crc32 d s c data .done = (c.run s true).map fun s' =>
      ⟨overwrite s (commitPages crc32 s T) fun p => if p ∈ c.touched s then data p else d p, some s'⟩ := by
  unfold diskCall
  dsimp only
  rw [ht]

theorem detects_done {d : Pages} {s : Spifs} {c : SpifsCall} {data : Pages} {T : List TocFile}
    (hg : s.generation + 1 < 2 ^ 32) (ht : c.toc s = some T) :
    (DiskOp.call c data .done).Detects crc32 ⟨d, some s⟩ := by
  refine ⟨hg, fun σ' h => .inr (.inr ⟨T, ht, ?_⟩)⟩
  rw [diskCall_done ht] at h
  obtain ⟨s', -, rfl⟩ := Option.map_eq_some_iff.mp h
  exact ⟨_, rfl⟩

end

/-- sixteen pages of two slots -/
def tinyDev : Bio.Bdev := plainDev 6 16 (by decide)

/-- the file system of `tinyDev` after a format with tables of three pages -/
def tinyFs : Spifs where
  pageSize := 64
  pageCount := 16
  generation := 3
  numEntries := 4
  tocPosition := .front
  files := [⟨0, ⟨0, 192, 192, padName frontTocLabel⟩⟩, ⟨1, ⟨13, 192, 192, padName backTocLabel⟩⟩]
  nextPtr := 2

def tinyTable : List TocFile := tocSlots 4 (tinyFs.files.map (·.metadata))

/-- and its pages -/
def tinyPages : Pages := formatPages crc32 64 16 tinyTable fun _ => []

/-- a file of one page -/
def tinyCall (name : UInt8) (len : Nat) : SpifsCall := .create [name] len true true

/-- what a format, a mount and the creation of a file give -/
theorem tiny_runs : (spifsFormat tinyDev 3 true).toOption = some tinyTable ∧
    (spifsMount crc32 tinyDev tinyPages).toOption = some tinyFs ∧ ((tinyCall 97 1).toc tinyFs).isSome := by
  decide +kernel

theorem tinyPages_mountable : Mountable crc32 tinyDev tinyPages := by
  have h : spifsFormat tinyDev 3 true = .ok tinyTable := by
    have h := tiny_runs.1
    cases hf : spifsFormat tinyDev 3 true with
    | ok table =>
      rw [hf] at h
      rw [Option.some.inj h]
    | error err =>
      rw [hf] at h
      cases h
  exact mountable_format rfl (by decide) h (by decide) (by decide) (by decide) fun _ _ h => by cases h

theorem tinyPages_mount : diskStep crc32 tinyDev ⟨tinyPages, none⟩ .mount = some ⟨tinyPages, some tinyFs⟩ := by
  have h := tiny_runs.2.1
  unfold diskStep
  dsimp only
  split
  · rename_i s hs
    rw [hs] at h
    rw [Option.some.inj h]
  · rename_i err herr
    rw [herr] at h
    cases h

theorem tinyPages_run {G : SpifsDisk → DiskOp → Prop} (hg : G ⟨tinyPages, none⟩ .mount) :
    (spifsDisk crc32 tinyDev).Run G ⟨tinyPages, some tinyFs⟩ := by
  have h0 : (spifsDisk crc32 tinyDev).Run G ⟨tinyPages, none⟩ := .init ⟨rfl, tinyPages_mountable⟩
  have hst : (spifsDisk crc32 tinyDev).step ⟨tinyPages, none⟩ .mount ⟨tinyPages, some tinyFs⟩ := tinyPages_mount
  exact .step h0 hg hst

theorem commit_atomic_create : ∃ σ', diskStep crc32 tinyDev ⟨tinyPages, some tinyFs⟩
      (.call (tinyCall 97 1) (fun _ => []) .done) = some σ' ∧
    ∃ files, tableOf crc32 tinyDev tinyPages = some files ∧ ∃ files', tableOf crc32 tinyDev σ'.pages = some files' ∧
      (files' = files ∨ (tinyCall 97 1).toc tinyFs = some files') ∧
      ∀ c data, DiskOp.call (tinyCall 97 1) (fun _ => []) .done = .call c data .done →
        ∀ T, (tinyCall 97 1).toc tinyFs = some T → files' = T := by
  have hrun : (spifsDisk crc32 tinyDev).Run (fun σ a => a.Sound crc32 σ) ⟨tinyPages, some tinyFs⟩ :=
    tinyPages_run trivial
  obtain ⟨T, ht⟩ := Option.isSome_iff_exists.mp tiny_runs.2.2
  have hst : diskStep crc32 tinyDev ⟨tinyPages, some tinyFs⟩ (.call (tinyCall 97 1) (fun _ => []) .done) = _ :=
    diskCall_done ht
  have hs : (DiskOp.call (tinyCall 97 1) (fun _ => []) .done).Sound crc32 ⟨tinyPages, some tinyFs⟩ := by
    refine ⟨detects_done (by decide) ht, ?_, ?_⟩
    · show 1 ≤ 2 ^ 32 - 64
      decide
    · intro k torn h
      cases h
  obtain ⟨files, hf, files', hf', h, hd⟩ := commit_atomic hrun hs hst
  refine ⟨_, hst, files, ?_, files', ?_, ?_, ?_⟩
  · exact hf
  · exact hf'
  · exact h
  · exact hd

/-- the file system and the pages after the creation of a file of 2^32 - 1 bytes, that is, of no pages -/
def emptyFs : Spifs := (spifsCreate tinyFs [98] 0xFFFFFFFF true true true).1

def emptyPages : Pages :=
  overwrite tinyFs (commitPages crc32 tinyFs (emptyFs.files.map (·.metadata))) fun p =>
    if p ∈ (tinyCall 98 0xFFFFFFFF).touched tinyFs then [] else tinyPages p

/-- and after that of a file of one page -/
def nextFs : Spifs := (spifsCreate emptyFs [99] 1 true true true).1

def nextPages : Pages :=
  overwrite emptyFs (commitPages crc32 emptyFs (nextFs.files.map (·.metadata))) fun p =>
    if p ∈ (tinyCall 99 1).touched emptyFs then [] else emptyPages p

/-- a file of no pages is in no table that a mount finds, whatever the next call commits -/
theorem not_commit_atomic : ¬ ∀ (dev : Bio.Bdev) (σ σ' : SpifsDisk) (a : DiskOp),
    (spifsDisk crc32 dev).Run (fun σ a => a.Detects crc32 σ) σ → a.Detects crc32 σ → diskStep crc32 dev σ a = some σ' →
    ∃ files, tableOf crc32 dev σ.pages = some files ∧ ∃ files', tableOf crc32 dev σ'.pages = some files' ∧
      (files' = files ∨ a.toc σ = some files') := by
  intro hall
  have h0 : (spifsDisk crc32 tinyDev).Run (fun σ a => a.Detects crc32 σ) ⟨tinyPages, some tinyFs⟩ :=
    tinyPages_run trivial
  have ht1 : (tinyCall 98 0xFFFFFFFF).toc tinyFs = some (emptyFs.files.map (·.metadata)) := by decide
  have h1 : (spifsDisk crc32 tinyDev).Run (fun σ a => a.Detects crc32 σ) ⟨emptyPages, some emptyFs⟩ :=
    .step (a := .call (tinyCall 98 0xFFFFFFFF) (fun _ => []) .done) h0 (detects_done (by decide) ht1) (diskCall_done ht1)
  have ht2 : (tinyCall 99 1).toc emptyFs = some (nextFs.files.map (·.metadata)) := by decide
  have hgen : emptyFs.generation + 1 < 2 ^ 32 := by decide
  obtain ⟨files, hf, files', hf', h⟩ := hall tinyDev ⟨emptyPages, some emptyFs⟩ ⟨nextPages, some nextFs⟩
    (.call (tinyCall 99 1) (fun _ => []) .done) h1 (detects_done hgen ht2) (diskCall_done ht2)
  have e1 : (tableOf crc32 tinyDev emptyPages).map List.length = some 2 := by decide +kernel
  have e2 : (tableOf crc32 tinyDev nextPages).map List.length = some 3 := by decide +kernel
  have e3 : ((tinyCall 99 1).toc emptyFs).map List.length = some 4 := by decide
  rw [hf] at e1
  rw [hf'] at e2
  rcases h with rfl | h
  · exact absurd (e1.symm.trans e2) (by decide)
  · change (tinyCall 99 1).toc emptyFs = some files' at h
    rw [h] at e3
    exact absurd (e3.symm.trans e2) (by decide)

end LkHv
