import Mathlib.Data.List.GetD
import LkHv.Kernel.Err
import LkHv.Lib.ByteMemory

/-!
# Boot images (`lib/bootimage/bootimage.c`)

`validate_bootimage` checks the first page by its hash, walks the directory behind the info block, and checks the
place and the hash of each file section; `bootimage_get_file_section` walks the directory again.  The number of
entries is not compared with the size of the page.

* `validateBootimage`, `getFileSection`   what they compute, and what they read;
* `checkEntries_cases`                    where the walk ends, and what it has read;
* `Safe`                                  nothing is read outside of the image or used without a hash;
* `SafeWhen`                              the condition;
* `bootimage_safe`                        exactly then an image is safe;
* `bootimage_safe_fails`                  not so for a page that is full of entries.
-/

namespace LkHv.Bootimage
open ByteMemory

def KIND_FILE : Nat := 0x656c6966
def KIND_BOOT_INFO : Nat := 0x6f666e69
def KIND_BOARD : Nat := 0x67726174
def KIND_BUILD : Nat := 0x706d7473
def TYPE_BOOT_IMAGE : Nat := 0x746f6f62
def BOOT_VERSION : Nat := 0x00010000

/-- `"<lk-boot-image>"` and its null byte -/
def BOOT_MAGIC : List UInt8 :=
  [0x3c, 0x6c, 0x6b, 0x2d, 0x62, 0x6f, 0x6f, 0x74, 0x2d, 0x69, 0x6d, 0x61, 0x67, 0x65, 0x3e, 0]

/-- the memory from `bi->ptr` on, with what lies behind the image -/
abbrev Memory := Nat → UInt8

/-! ## the fields of `be[i]` -/

def kind (b : Memory) (i : Nat) : Nat := u32At b (64 * i)
def fileType (b : Memory) (i : Nat) : Nat := u32At b (64 * i + 4)
def fileOffset (b : Memory) (i : Nat) : Nat := u32At b (64 * i + 8)
def fileLength (b : Memory) (i : Nat) : Nat := u32At b (64 * i + 12)
def fileName (b : Memory) (i : Nat) : List UInt8 := bytesAt b (64 * i + 16) 16
def fileSha256 (b : Memory) (i : Nat) : List UInt8 := bytesAt b (64 * i + 32) 32
def version (b : Memory) : Nat := u32At b (64 + 4)
def imageSize (b : Memory) : Nat := u32At b (64 + 8)
def entryCount (b : Memory) : Nat := u32At b (64 + 12)

/-! ## reads -/

/-- the first entry, an entry behind it, or bytes that are hashed -/
inductive Part
  | first
  | entry
  | data
  deriving DecidableEq

structure Access where
  part : Part
  off : Nat
  len : Nat
  deriving DecidableEq

def Access.stop (a : Access) : Nat := a.off + a.len

section
variable (sha256 : List UInt8 → List UInt8)

/-- what the walk does after an entry -/
inductive Next
  | next
  | leave
  | fail (err : Int)

/-- one entry of the directory -/
def checkEntry (b : Memory) (i : Nat) : Next × List Access :=
  if kind b i = 0 then (.leave, [⟨.entry, 64 * i, 4⟩])
  else if kind b i = KIND_BOOT_INFO ∨ kind b i = KIND_BOARD ∨ kind b i = KIND_BUILD then
    (.next, [⟨.entry, 64 * i, 4⟩])
  else if kind b i = KIND_FILE then
    -- a `uint32_t`
    let last := (fileOffset b i + fileLength b i) % 2 ^ 32
    if last < fileOffset b i ∨ last > imageSize b then (.fail ERR_INVALID_ARGS, [⟨.entry, 64 * i, 16⟩])
    else
      let reads := [⟨.entry, 64 * i, 16⟩, ⟨.data, fileOffset b i, fileLength b i⟩, ⟨.entry, 64 * i + 32, 32⟩]
      if sha256 (bytesAt b (fileOffset b i) (fileLength b i)) ≠ fileSha256 b i then (.fail ERR_CHECKSUM_FAIL, reads)
      else (.next, reads)
  else (.fail ERR_INVALID_ARGS, [⟨.entry, 64 * i, 4⟩])

/-- the loop over the directory, with `n` entries to go -/
def checkEntries (b : Memory) : Nat → Nat → Int × List Access
  | 0, _ => (0, [])
  | n + 1, i =>
    match checkEntry sha256 b i with
    | (.leave, reads) => (0, reads)
    | (.fail err, reads) => (err, reads)
    | (.next, reads) =>
      let rest := checkEntries b n (i + 1)
      (rest.1, reads ++ rest.2)

/-- `validate_bootimage`; the result, `bi->len`, and what is read -/
def validateBootimage (b : Memory) (len : Nat) : Int × Nat × List Access :=
  if len < 4096 then (ERR_BAD_LEN, len, [])
  else if kind b 0 ≠ KIND_FILE ∨ fileType b 0 ≠ TYPE_BOOT_IMAGE ∨ fileOffset b 0 ≠ 0 ∨ fileLength b 0 ≠ 4096 ∨
      fileName b 0 ≠ BOOT_MAGIC then
    (ERR_INVALID_ARGS, len, [⟨.first, 0, 32⟩])
  else
    let reads := [⟨.first, 0, 32⟩, ⟨.data, 64, 4096 - 64⟩, ⟨.first, 32, 32⟩]
    if sha256 (bytesAt b 64 (4096 - 64)) ≠ fileSha256 b 0 then (ERR_CHECKSUM_FAIL, len, reads)
    else
      let reads := reads ++ [⟨.entry, 64, 16⟩]
      if kind b 1 ≠ KIND_BOOT_INFO then (ERR_INVALID_ARGS, len, reads)
      else if version b > BOOT_VERSION then (ERR_INVALID_ARGS, len, reads)
      else if imageSize b > len then (ERR_INVALID_ARGS, len, reads)
      else
        let walk := checkEntries sha256 b (entryCount b - 2) 2
        (walk.1, imageSize b, reads ++ walk.2)

/-- `struct bootimage`; the pointer is where the memory starts -/
structure Image where
  len : Nat

/-- `bootimage_open`; `room` says whether `calloc` succeeds -/
def bootimageOpen (room : Bool) (b : Memory) (len : Nat) : Int × Option Image × List Access :=
  if room then
    let (err, len, reads) := validateBootimage sha256 b len
    if err < 0 then (err, none, reads) else (0, some ⟨len⟩, reads)
  else (ERR_NO_MEMORY, none, [])

/-- the loop of `bootimage_get_file_section`, with `n` entries to go -/
def findSection (b : Memory) (type : Nat) : Nat → Nat → Option (Nat × Nat) × List Access
  | 0, _ => (none, [])
  | n + 1, i =>
    if kind b i = 0 then (none, [⟨.entry, 64 * i, 4⟩])
    else if kind b i ≠ KIND_FILE then
      let rest := findSection b type n (i + 1)
      (rest.1, ⟨.entry, 64 * i, 4⟩ :: rest.2)
    else if type = fileType b i then (some (fileOffset b i, fileLength b i), [⟨.entry, 64 * i, 16⟩])
    else
      let rest := findSection b type n (i + 1)
      (rest.1, ⟨.entry, 64 * i, 8⟩ :: rest.2)

/-- `bootimage_get_file_section`: the offset and the length of a section; `none` is `ERR_NOT_FOUND` -/
def getFileSection (b : Memory) (type : Nat) : Option (Nat × Nat) × List Access :=
  let r := findSection b type (entryCount b - 2) 2
  (r.1, ⟨.entry, 64 + 12, 4⟩ :: r.2)

/-! ## the property -/

/-- bytes that the hash of the first page covers -/
def Access.Covered (a : Access) : Prop := 64 ≤ a.off ∧ a.stop ≤ 4096

/-- what is read of an image of `len` bytes, and what is handed out -/
structure Safe (b : Memory) (len : Nat) : Prop where
  /-- no byte outside of the image is read by `bootimage_open` -/
  inside : ∀ room, ∀ a ∈ (bootimageOpen sha256 room b len).2.2, a.stop ≤ len
  /-- the hash of the first page is checked, and covers the directory -/
  covered : ∀ room bi, (bootimageOpen sha256 room b len).2.1 = some bi →
    sha256 (bytesAt b 64 (4096 - 64)) = fileSha256 b 0 ∧
      ∀ a ∈ (bootimageOpen sha256 room b len).2.2, a.part = .entry → a.Covered
  /-- so it does when a section is looked for -/
  lookup : ∀ room bi, (bootimageOpen sha256 room b len).2.1 = some bi →
    ∀ type, ∀ a ∈ (getFileSection b type).2, a.stop ≤ len ∧ a.Covered
  /-- a section lies within the image, and has the hash of its entry -/
  found : ∀ room bi, (bootimageOpen sha256 room b len).2.1 = some bi →
    ∀ type off l, (getFileSection b type).1 = some (off, l) → off + l ≤ bi.len ∧ bi.len ≤ len ∧
      ∃ i, 2 ≤ i ∧ i < entryCount b ∧ kind b i = KIND_FILE ∧ fileType b i = type ∧ fileOffset b i = off ∧
        fileLength b i = l ∧ sha256 (bytesAt b off l) = fileSha256 b i

/-! ## the condition -/

/-- the first page and the info block are as they should be -/
structure HeaderOk (b : Memory) (len : Nat) : Prop where
  large : 4096 ≤ len
  kind : kind b 0 = KIND_FILE
  type : fileType b 0 = TYPE_BOOT_IMAGE
  offset : fileOffset b 0 = 0
  length : fileLength b 0 = 4096
  name : fileName b 0 = BOOT_MAGIC
  hash : sha256 (bytesAt b 64 (4096 - 64)) = fileSha256 b 0
  info : Bootimage.kind b 1 = KIND_BOOT_INFO
  version : version b ≤ BOOT_VERSION
  size : imageSize b ≤ len

/-- a file section within the image, with the hash of its entry -/
def SectionOk (b : Memory) (i : Nat) : Prop :=
  fileOffset b i + fileLength b i ≤ imageSize b ∧
    sha256 (bytesAt b (fileOffset b i) (fileLength b i)) = fileSha256 b i

/-- an entry that is neither the end of the directory nor wrong -/
def EntryOk (b : Memory) (i : Nat) : Prop :=
  kind b i = KIND_BOOT_INFO ∨ kind b i = KIND_BOARD ∨ kind b i = KIND_BUILD ∨
    kind b i = KIND_FILE ∧ SectionOk sha256 b i

/-- how much of an entry that is wrong is looked at -/
def lookedAt (b : Memory) (i : Nat) : Nat :=
  if kind b i ≠ KIND_FILE then 4 else if imageSize b < fileOffset b i + fileLength b i then 16 else 64

/-- The directory ends within the first page, or it has an entry that is wrong within the image. -/
def DirectoryWhen (b : Memory) (len : Nat) : Prop :=
  ∃ n, 2 ≤ n ∧ (∀ i, 2 ≤ i → i < n → i < entryCount b ∧ EntryOk sha256 b i) ∧
    (entryCount b ≤ n ∧ n ≤ 64 ∨ n < entryCount b ∧ kind b n = 0 ∧ n < 64 ∨
      n < entryCount b ∧ kind b n ≠ 0 ∧ ¬ EntryOk sha256 b n ∧ 64 * n + lookedAt b n ≤ len)

def SafeWhen (b : Memory) (len : Nat) : Prop := HeaderOk sha256 b len → DirectoryWhen sha256 b len

end

section
variable {sha256 : List UInt8 → List UInt8} {b : Memory} {i len : Nat}

/-! ## one entry -/

/-- the sum of the offset and the length does not wrap around unnoticed -/
theorem outside_iff : ((fileOffset b i + fileLength b i) % 2 ^ 32 < fileOffset b i ∨
    (fileOffset b i + fileLength b i) % 2 ^ 32 > imageSize b) ↔ imageSize b < fileOffset b i + fileLength b i := by
  have ho : fileOffset b i < 2 ^ 32 := u32At_lt b _
  have hl : fileLength b i < 2 ^ 32 := u32At_lt b _
  have hs : imageSize b < 2 ^ 32 := u32At_lt b _
  omega

/-- what is read of entry `i` and of its section -/
structure Within (b : Memory) (i m : Nat) (reads : List Access) : Prop where
  entry : ∀ a ∈ reads, a.part = .entry → 64 * i ≤ a.off ∧ a.stop ≤ 64 * i + m
  data : ∀ a ∈ reads, a.part ≠ .entry → a.stop ≤ imageSize b
  kind : ∃ a ∈ reads, a.part = .entry ∧ a.off = 64 * i ∧ 64 * i + 4 ≤ a.stop
  last : ∃ a ∈ reads, a.part = .entry ∧ a.stop = 64 * i + m

theorem within_kind (b : Memory) (i : Nat) : Within b i 4 [⟨.entry, 64 * i, 4⟩] := by
  have h : (⟨.entry, 64 * i, 4⟩ : Access) ∈ [(⟨.entry, 64 * i, 4⟩ : Access)] := List.mem_singleton.mpr rfl
  refine ⟨fun a ha _ => ?_, fun a ha hp => ?_, ⟨_, h, rfl, rfl, Nat.le_refl _⟩, ⟨_, h, rfl, rfl⟩⟩
  · rw [List.mem_singleton.mp ha]
    exact ⟨Nat.le_refl _, Nat.le_refl _⟩
  · rw [List.mem_singleton.mp ha] at hp
    exact absurd rfl hp

theorem within_place (b : Memory) (i : Nat) : Within b i 16 [⟨.entry, 64 * i, 16⟩] := by
  have h : (⟨.entry, 64 * i, 16⟩ : Access) ∈ [(⟨.entry, 64 * i, 16⟩ : Access)] := List.mem_singleton.mpr rfl
  refine ⟨fun a ha _ => ?_, fun a ha hp => ?_, ⟨_, h, rfl, rfl, ?_⟩, ⟨_, h, rfl, rfl⟩⟩
  · rw [List.mem_singleton.mp ha]
    exact ⟨Nat.le_refl _, Nat.le_refl _⟩
  · rw [List.mem_singleton.mp ha] at hp
    exact absurd rfl hp
  · show _ ≤ 64 * i + 16
    omega

theorem within_section (h : fileOffset b i + fileLength b i ≤ imageSize b) : Within b i 64
    [⟨.entry, 64 * i, 16⟩, ⟨.data, fileOffset b i, fileLength b i⟩, ⟨.entry, 64 * i + 32, 32⟩] := by
  constructor
  · intro a ha hp
    simp only [List.mem_cons, List.not_mem_nil, or_false] at ha
    rcases ha with rfl | rfl | rfl
    · exact ⟨Nat.le_refl _, show 64 * i + 16 ≤ _ by lia⟩
    · cases hp
    · exact ⟨Nat.le_add_right _ _, show 64 * i + 32 + 32 ≤ _ by lia⟩
  · intro a ha hp
    simp only [List.mem_cons, List.not_mem_nil, or_false] at ha
    rcases ha with rfl | rfl | rfl
    · exact absurd rfl hp
    · exact h
    · exact absurd rfl hp
  · exact ⟨_, .head _, rfl, rfl, show _ ≤ 64 * i + 16 by lia⟩
  · exact ⟨_, .tail _ (.tail _ (.head _)), rfl, rfl⟩

theorem checkEntry_end (h : kind b i = 0) : checkEntry sha256 b i = (.leave, [⟨.entry, 64 * i, 4⟩]) := if_pos h

theorem EntryOk.kind_ne (h : EntryOk sha256 b i) : kind b i ≠ 0 := by
  rintro e
  rcases h with h | h | h | ⟨h, -⟩ <;> cases e.symm.trans h

theorem checkEntry_ok (h : EntryOk sha256 b i) :
    (checkEntry sha256 b i).1 = .next ∧ ∃ m ≤ 64, Within b i m (checkEntry sha256 b i).2 := by
  unfold checkEntry
  rw [if_neg h.kind_ne]
  by_cases hk : kind b i = KIND_BOOT_INFO ∨ kind b i = KIND_BOARD ∨ kind b i = KIND_BUILD
  · rw [if_pos hk]
    exact ⟨rfl, 4, by decide, within_kind b i⟩
  · obtain ⟨hf, hin, hhash⟩ : kind b i = KIND_FILE ∧ SectionOk sha256 b i := by
      rcases h with h | h | h | h
      · exact absurd (.inl h) hk
      · exact absurd (.inr (.inl h)) hk
      · exact absurd (.inr (.inr h)) hk
      · exact h
    rw [if_neg hk, if_pos hf]
    dsimp only
    rw [if_neg (by rw [outside_iff]; omega), if_neg (not_not.mpr hhash)]
    exact ⟨rfl, 64, Nat.le_refl _, within_section hin⟩

theorem checkEntry_bad (hk : kind b i ≠ 0) (h : ¬ EntryOk sha256 b i) :
    (∃ err < 0, (checkEntry sha256 b i).1 = .fail err) ∧ Within b i (lookedAt b i) (checkEntry sha256 b i).2 := by
  unfold checkEntry lookedAt
  rw [if_neg hk, if_neg fun hk' => h (hk'.imp id fun hk' => hk'.imp id fun hk' => .inl hk')]
  by_cases hf : kind b i = KIND_FILE
  · rw [if_pos hf, if_neg (not_not.mpr hf)]
    dsimp only
    by_cases hout : imageSize b < fileOffset b i + fileLength b i
    · rw [if_pos (outside_iff.mpr hout), if_pos hout]
      exact ⟨⟨_, by decide, rfl⟩, within_place b i⟩
    · rw [if_neg fun hc => hout (outside_iff.mp hc), if_neg hout,
        if_pos fun hc => h (.inr (.inr (.inr ⟨hf, by omega, hc⟩)))]
      exact ⟨⟨_, by decide, rfl⟩, within_section (by omega)⟩
  · rw [if_neg hf, if_pos hf]
    exact ⟨⟨_, by decide, rfl⟩, within_kind b i⟩

/-! ## the walk -/

/-- The walk from entry `i` on, with `n` entries to go, ends at entry `k`. -/
structure EndsAt (sha256 : List UInt8 → List UInt8) (b : Memory) (n i k : Nat) (r : Int × List Access) : Prop where
  le : i ≤ k
  bound : k ≤ i + n
  ok : ∀ j, i ≤ j → j < k → EntryOk sha256 b j
  reads : ∀ a, a ∈ r.2 ↔ (∃ j, i ≤ j ∧ j < k ∧ a ∈ (checkEntry sha256 b j).2) ∨
    k < i + n ∧ a ∈ (checkEntry sha256 b k).2
  result : k = i + n ∧ r.1 = 0 ∨ k < i + n ∧ kind b k = 0 ∧ r.1 = 0 ∨
    k < i + n ∧ kind b k ≠ 0 ∧ ¬ EntryOk sha256 b k ∧ r.1 < 0

theorem checkEntries_cases (sha256 : List UInt8 → List UInt8) (b : Memory) (n i : Nat) :
    ∃ k, EndsAt sha256 b n i k (checkEntries sha256 b n i) := by
  induction n generalizing i with
  | zero =>
    refine ⟨i, Nat.le_refl _, Nat.le_refl _, fun j h1 h2 => by lia, fun a => ?_, .inl ⟨rfl, rfl⟩⟩
    exact iff_of_false List.not_mem_nil (by rintro (⟨j, h1, h2, -⟩ | ⟨h, -⟩) <;> lia)
  | succ n ih =>
    -- the walk ends at once
    have hnow : ∀ r : Int × List Access, r.2 = (checkEntry sha256 b i).2 →
        (kind b i = 0 ∧ r.1 = 0 ∨ kind b i ≠ 0 ∧ ¬ EntryOk sha256 b i ∧ r.1 < 0) →
        EndsAt sha256 b (n + 1) i i r := by
      intro r h2 h1
      refine ⟨Nat.le_refl _, by lia, fun j h1 h2 => by lia, fun a => ?_, ?_⟩
      · rw [h2]
        exact ⟨fun h => .inr ⟨by lia, h⟩, fun h => h.elim (fun ⟨j, h1, h2, _⟩ => by lia) And.right⟩
      · rcases h1 with ⟨h1, h3⟩ | ⟨h1, h3, h4⟩
        · exact .inr (.inl ⟨by lia, h1, h3⟩)
        · exact .inr (.inr ⟨by lia, h1, h3, h4⟩)
    rw [checkEntries]
    by_cases hk : kind b i = 0
    · refine ⟨i, hnow _ ?_ (.inl ⟨hk, ?_⟩)⟩ <;> rw [checkEntry_end hk]
    by_cases hok : EntryOk sha256 b i
    · obtain ⟨hnext, -⟩ := checkEntry_ok hok
      obtain ⟨k, h⟩ := ih (i + 1)
      have hle := h.le
      have hbound := h.bound
      have e : i + 1 + n = i + (n + 1) := by lia
      cases hc : checkEntry sha256 b i with
      | mk step reads =>
        rw [hc] at hnext
        cases hnext
        refine ⟨k, by lia, by lia, fun j h1 h2 => ?_, fun a => ?_, by rw [← e]; exact h.result⟩
        · by_cases hj : j = i
          · rw [hj]
            exact hok
          · exact h.ok j (by lia) h2
        · show a ∈ reads ++ (checkEntries sha256 b n (i + 1)).2 ↔ _
          rw [List.mem_append, h.reads, e]
          constructor
          · rintro (ha | ⟨j, h1, h2, ha⟩ | ha)
            · exact .inl ⟨i, Nat.le_refl _, by lia, by rw [hc]; exact ha⟩
            · exact .inl ⟨j, by lia, h2, ha⟩
            · exact .inr ha
          · rintro (⟨j, h1, h2, ha⟩ | ha)
            · by_cases hj : j = i
              · rw [hj, hc] at ha
                exact .inl ha
              · exact .inr (.inl ⟨j, by lia, h2, ha⟩)
            · exact .inr (.inr ha)
    · obtain ⟨⟨err, herr, hfail⟩, -⟩ := checkEntry_bad hk hok
      cases hc : checkEntry sha256 b i with
      | mk step reads =>
        rw [hc] at hfail
        cases hfail
        exact ⟨i, hnow _ (by rw [hc]) (.inr ⟨hk, hok, herr⟩)⟩

/-! ## the lookup -/

/-- the section found is that of an entry, and no entry before it ends the directory -/
theorem findSection_found {type n off l : Nat} (h : (findSection b type n i).1 = some (off, l)) :
    ∃ j, i ≤ j ∧ j < i + n ∧ (∀ k, i ≤ k → k < j → kind b k ≠ 0) ∧ kind b j = KIND_FILE ∧ fileType b j = type ∧
      fileOffset b j = off ∧ fileLength b j = l := by
  induction n generalizing i with
  | zero => cases h
  | succ n ih =>
    rw [findSection] at h
    have hlater : kind b i ≠ 0 → (findSection b type n (i + 1)).1 = some (off, l) → ∃ j, i ≤ j ∧ j < i + (n + 1) ∧
        (∀ k, i ≤ k → k < j → kind b k ≠ 0) ∧ kind b j = KIND_FILE ∧ fileType b j = type ∧ fileOffset b j = off ∧
        fileLength b j = l := by
      intro hk hrest
      obtain ⟨j, h1, h2, h3, h4⟩ := ih hrest
      refine ⟨j, by lia, by lia, fun k hk1 hk2 => ?_, h4⟩
      by_cases e : k = i
      · rw [e]
        exact hk
      · exact h3 k (by lia) hk2
    split at h
    · cases h
    rename_i hk
    split at h
    · exact hlater hk h
    rename_i hf
    split at h
    · rename_i ht
      cases h
      exact ⟨i, Nat.le_refl _, by lia, fun k h1 h2 => by lia, not_not.mp hf, ht.symm, rfl, rfl⟩
    · exact hlater hk h

theorem findSection_reads {type n : Nat} {a : Access} (h : a ∈ (findSection b type n i).2) :
    ∃ j, i ≤ j ∧ j < i + n ∧ (∀ k, i ≤ k → k < j → kind b k ≠ 0) ∧ 64 * j ≤ a.off ∧ a.stop ≤ 64 * j + 16 := by
  induction n generalizing i with
  | zero => cases h
  | succ n ih =>
    rw [findSection] at h
    have hnow : ∀ m ≤ 16, a = ⟨.entry, 64 * i, m⟩ → ∃ j, i ≤ j ∧ j < i + (n + 1) ∧
        (∀ k, i ≤ k → k < j → kind b k ≠ 0) ∧ 64 * j ≤ a.off ∧ a.stop ≤ 64 * j + 16 := by
      rintro m hm rfl
      exact ⟨i, Nat.le_refl _, by lia, fun k h1 h2 => by lia, Nat.le_refl _, show 64 * i + m ≤ _ by lia⟩
    have hlater : kind b i ≠ 0 → a ∈ (findSection b type n (i + 1)).2 → ∃ j, i ≤ j ∧ j < i + (n + 1) ∧
        (∀ k, i ≤ k → k < j → kind b k ≠ 0) ∧ 64 * j ≤ a.off ∧ a.stop ≤ 64 * j + 16 := by
      intro hk hrest
      obtain ⟨j, h1, h2, h3, h4⟩ := ih hrest
      refine ⟨j, by lia, by lia, fun k hk1 hk2 => ?_, h4⟩
      by_cases e : k = i
      · rw [e]
        exact hk
      · exact h3 k (by lia) hk2
    split at h
    · exact hnow 4 (by decide) (List.mem_singleton.mp h)
    rename_i hk
    split at h
    · exact (List.mem_cons.mp h).elim (hnow 4 (by decide)) (hlater hk)
    split at h
    · exact hnow 16 (Nat.le_refl _) (List.mem_singleton.mp h)
    · exact (List.mem_cons.mp h).elim (hnow 8 (by decide)) (hlater hk)

/-! ## the whole image -/

/-- what is read before the walk -/
def headerReads : List Access := [⟨.first, 0, 32⟩, ⟨.data, 64, 4096 - 64⟩, ⟨.first, 32, 32⟩, ⟨.entry, 64, 16⟩]

theorem headerReads_stop {a : Access} (ha : a ∈ headerReads) : a.stop ≤ 4096 ∧ (a.part = .entry → a.Covered) := by
  unfold headerReads at ha
  simp only [List.mem_cons, List.not_mem_nil, or_false] at ha
  unfold Access.Covered Access.stop
  rcases ha with rfl | rfl | rfl | rfl
  · exact ⟨by decide, fun h => by cases h⟩
  · exact ⟨by decide, fun h => by cases h⟩
  · exact ⟨by decide, fun h => by cases h⟩
  · exact ⟨by decide, fun _ => by decide⟩

theorem validate_ok (h : HeaderOk sha256 b len) : validateBootimage sha256 b len =
    ((checkEntries sha256 b (entryCount b - 2) 2).1, imageSize b,
      headerReads ++ (checkEntries sha256 b (entryCount b - 2) 2).2) := by
  have hl := h.large
  have hv := h.version
  have hs := h.size
  unfold validateBootimage
  rw [if_neg (by lia), if_neg (by rw [h.kind, h.type, h.offset, h.length, h.name]; simp)]
  dsimp only
  rw [if_neg (not_not.mpr h.hash), if_neg (not_not.mpr h.info), if_neg (by lia), if_neg (by lia)]
  rfl

theorem validate_refused (h : ¬ HeaderOk sha256 b len) : (validateBootimage sha256 b len).1 < 0 ∧
    ∀ a ∈ (validateBootimage sha256 b len).2.2, a.stop ≤ len := by
  have hargs : ERR_INVALID_ARGS < 0 := by decide
  have hsum : ERR_CHECKSUM_FAIL < 0 := by decide
  unfold validateBootimage
  split
  · exact ⟨show ERR_BAD_LEN < 0 by decide, fun a ha => by cases ha⟩
  rename_i hl
  have hpage : ∀ a : Access, a ∈ headerReads → a.stop ≤ len := fun a ha => by
    have := (headerReads_stop ha).1
    lia
  split
  · exact ⟨hargs, fun a ha => hpage a (by rw [List.mem_singleton.mp ha]; exact .head _)⟩
  rename_i hfirst
  dsimp only
  split
  · refine ⟨hsum, fun a ha => hpage a ?_⟩
    exact List.mem_append_left [(⟨.entry, 64, 16⟩ : Access)] ha
  rename_i hhash
  split
  · exact ⟨hargs, hpage⟩
  rename_i hinfo
  split
  · exact ⟨hargs, hpage⟩
  rename_i hversion
  split
  · exact ⟨hargs, hpage⟩
  rename_i hsize
  simp only [not_or, not_not] at hfirst
  obtain ⟨h1, h2, h3, h4, h5⟩ := hfirst
  exact absurd ⟨by lia, h1, h2, h3, h4, h5, not_not.mp hhash, not_not.mp hinfo, by lia, by lia⟩ h

/-- `bootimage_open` reads what `validate_bootimage` reads, and accepts what that accepts -/
theorem open_reads (a : Access) : (∃ room, a ∈ (bootimageOpen sha256 room b len).2.2) ↔
    a ∈ (validateBootimage sha256 b len).2.2 := by
  have hroom : (bootimageOpen sha256 true b len).2.2 = (validateBootimage sha256 b len).2.2 := by
    unfold bootimageOpen
    rw [if_pos rfl]
    dsimp only
    split <;> rfl
  constructor
  · rintro ⟨room, ha⟩
    cases room with
    | false => cases ha
    | true => rwa [hroom] at ha
  · intro ha
    exact ⟨true, by rwa [hroom]⟩

theorem open_accepted {room : Bool} {bi : Image} (h : (bootimageOpen sha256 room b len).2.1 = some bi) :
    ¬ (validateBootimage sha256 b len).1 < 0 ∧ bi.len = (validateBootimage sha256 b len).2.1 := by
  unfold bootimageOpen at h
  cases room with
  | false => cases h
  | true =>
    rw [if_pos rfl] at h
    dsimp only at h
    split at h
    · cases h
    · rename_i hn
      cases h
      exact ⟨hn, rfl⟩

theorem open_of_accepted (h : ¬ (validateBootimage sha256 b len).1 < 0) :
    (bootimageOpen sha256 true b len).2.1 = some ⟨(validateBootimage sha256 b len).2.1⟩ := by
  unfold bootimageOpen
  rw [if_pos rfl]
  dsimp only
  rw [if_neg h]

/-- an image whose header is refused is safe -/
theorem safe_of_refused (h : ¬ HeaderOk sha256 b len) : Safe sha256 b len := by
  obtain ⟨herr, hreads⟩ := validate_refused h
  have hnone : ∀ room bi, (bootimageOpen sha256 room b len).2.1 ≠ some bi :=
    fun room bi hbi => (open_accepted hbi).1 herr
  exact ⟨fun room a ha => hreads a ((open_reads a).mp ⟨room, ha⟩), fun room bi hbi => absurd hbi (hnone room bi),
    fun room bi hbi => absurd hbi (hnone room bi), fun room bi hbi => absurd hbi (hnone room bi)⟩

/-- the entries that a walk that ends at `k` looks at -/
def Visited (b : Memory) (k j : Nat) : Prop := 2 ≤ j ∧ (j < k ∨ j = k ∧ k < entryCount b)

section
variable {k : Nat} (h : HeaderOk sha256 b len)
  (hk : EndsAt sha256 b (entryCount b - 2) 2 k (checkEntries sha256 b (entryCount b - 2) 2))
include hk

/-- hashed bytes lie within the image -/
theorem data_inside {j : Nat} (hj : Visited b k j) {a : Access} (ha : a ∈ (checkEntry sha256 b j).2)
    (hp : a.part ≠ .entry) : a.stop ≤ imageSize b := by
  obtain ⟨hj2, hj | ⟨rfl, hj⟩⟩ := hj
  · obtain ⟨-, m, -, hw⟩ := checkEntry_ok (hk.ok j hj2 hj)
    exact hw.data a ha hp
  · rcases hk.result with ⟨h1, -⟩ | ⟨-, h2, -⟩ | ⟨-, h2, h3, -⟩
    · omega
    · rw [checkEntry_end h2] at ha
      rw [List.mem_singleton.mp ha] at hp
      exact absurd rfl hp
    · exact (checkEntry_bad h2 h3).2.data a ha hp

include h

theorem mem_validate (a : Access) : a ∈ (validateBootimage sha256 b len).2.2 ↔
    a ∈ headerReads ∨ ∃ j, Visited b k j ∧ a ∈ (checkEntry sha256 b j).2 := by
  have hle := hk.le
  rw [validate_ok h]
  show a ∈ headerReads ++ (checkEntries sha256 b (entryCount b - 2) 2).2 ↔ _
  rw [List.mem_append, hk.reads]
  refine or_congr_right ⟨?_, ?_⟩
  · rintro (⟨j, h1, h2, ha⟩ | ⟨h1, ha⟩)
    · exact ⟨j, ⟨h1, .inl h2⟩, ha⟩
    · exact ⟨k, ⟨hle, .inr ⟨rfl, by omega⟩⟩, ha⟩
  · rintro ⟨j, ⟨h1, h2 | ⟨rfl, h2⟩⟩, ha⟩
    · exact .inl ⟨j, h1, h2, ha⟩
    · exact .inr ⟨by omega, ha⟩

/-- a directory that is accepted and ends in the first page -/
theorem safe_of_short (hacc : k = 2 + (entryCount b - 2) ∨ k < entryCount b ∧ kind b k = 0)
    (hshort : ∀ j, Visited b k j → j < 64) : Safe sha256 b len := by
  have hlarge := h.large
  have hsize := h.size
  have hle := hk.le
  have hlen : (validateBootimage sha256 b len).2.1 = imageSize b := by rw [validate_ok h]
  -- what is read of the entries
  have hentry : ∀ j, Visited b k j → ∀ a ∈ (checkEntry sha256 b j).2, a.part = .entry → a.Covered := by
    intro j hj a ha hp
    have hj64 := hshort j hj
    obtain ⟨hj2, hjk | ⟨rfl, hjk⟩⟩ := hj
    · obtain ⟨-, m, hm, hw⟩ := checkEntry_ok (hk.ok j hj2 hjk)
      have := hw.entry a ha hp
      unfold Access.Covered
      lia
    · rcases hacc with hend | ⟨-, h0⟩
      · lia
      · rw [checkEntry_end h0] at ha
        have := (within_kind b j).entry a ha hp
        unfold Access.Covered
        lia
  -- the entries that a lookup looks at
  have hvisit : ∀ j, 2 ≤ j → j < 2 + (entryCount b - 2) → (∀ i, 2 ≤ i → i < j → kind b i ≠ 0) → Visited b k j := by
    intro j h1 h2 h3
    refine ⟨h1, ?_⟩
    by_contra hc
    rcases hacc with hend | ⟨hlt, h0⟩
    · lia
    · exact h3 k hle (by lia) h0
  constructor
  · intro room a ha
    rcases (mem_validate h hk a).mp ((open_reads a).mp ⟨room, ha⟩) with ha | ⟨j, hj, ha⟩
    · exact le_trans (headerReads_stop ha).1 hlarge
    · by_cases hp : a.part = .entry
      · exact le_trans (hentry j hj a ha hp).2 hlarge
      · exact le_trans (data_inside hk hj ha hp) hsize
  · intro room bi _
    refine ⟨h.hash, fun a ha hp => ?_⟩
    rcases (mem_validate h hk a).mp ((open_reads a).mp ⟨room, ha⟩) with ha | ⟨j, hj, ha⟩
    · exact (headerReads_stop ha).2 hp
    · exact hentry j hj a ha hp
  · intro room bi _ type a ha
    rcases List.mem_cons.mp ha with rfl | ha
    · exact ⟨show 80 ≤ len by lia, by decide, by decide⟩
    · obtain ⟨j, h1, h2, h3, h4, h5⟩ := findSection_reads ha
      have hj64 := hshort j (hvisit j h1 h2 h3)
      unfold Access.Covered
      lia
  · intro room bi hbi type off l hf
    obtain ⟨j, h1, h2, h3, hkind, htype, rfl, rfl⟩ := findSection_found hf
    have hj : EntryOk sha256 b j := by
      obtain ⟨-, hj | ⟨rfl, hj⟩⟩ := hvisit j h1 h2 h3
      · exact hk.ok j h1 hj
      · rcases hacc with hend | ⟨-, h0⟩
        · lia
        · cases hkind.symm.trans h0
    obtain ⟨hin, hhash⟩ : SectionOk sha256 b j := by
      rcases hj with e | e | e | ⟨-, e⟩
      · cases hkind.symm.trans e
      · cases hkind.symm.trans e
      · cases hkind.symm.trans e
      · exact e
    rw [(open_accepted hbi).2, hlen]
    exact ⟨hin, hsize, j, h1, by lia, hkind, htype, rfl, rfl, hhash⟩

/-- a directory that is accepted and does not end in the first page -/
theorem not_safe_of_long (hacc : k = 2 + (entryCount b - 2) ∨ k < entryCount b ∧ kind b k = 0) (hlong : Visited b k 64) :
    ¬ Safe sha256 b len := by
  intro hsafe
  have hres : (validateBootimage sha256 b len).1 = 0 := by
    rw [validate_ok h]
    rcases hk.result with ⟨-, e⟩ | ⟨-, -, e⟩ | ⟨h1, h2, h3, e⟩
    · exact e
    · exact e
    · rcases hacc with hend | ⟨-, h0⟩
      · omega
      · exact absurd h0 h2
  have hacc' := @open_of_accepted sha256 b len (by rw [hres]; decide)
  -- its kind is read
  obtain ⟨a, ha, hp, hoff, hstop⟩ : ∃ a ∈ (checkEntry sha256 b 64).2, a.part = .entry ∧ a.off = 64 * 64 ∧
      64 * 64 + 4 ≤ a.stop := by
    obtain ⟨-, hj | ⟨rfl, hj⟩⟩ := hlong
    · obtain ⟨-, m, -, hw⟩ := checkEntry_ok (hk.ok 64 (by decide) hj)
      exact hw.kind
    · rcases hacc with hend | ⟨-, h0⟩
      · omega
      · rw [checkEntry_end h0]
        exact (within_kind b 64).kind
  have hcov := (hsafe.covered true _ hacc').2 a (by
    have hmem := (mem_validate h hk a).mpr (.inr ⟨64, hlong, ha⟩)
    obtain ⟨room, hr⟩ := (open_reads a).mpr hmem
    cases room with
    | false => cases hr
    | true => exact hr) hp
  have := hcov.2
  omega

/-- an image with a good header whose walk ends at entry `k` -/
theorem safe_iff_end : Safe sha256 b len ↔ (entryCount b ≤ k ∧ k ≤ 64 ∨ k < entryCount b ∧ kind b k = 0 ∧ k < 64 ∨
      k < entryCount b ∧ kind b k ≠ 0 ∧ ¬ EntryOk sha256 b k ∧ 64 * k + lookedAt b k ≤ len) := by
  have hle := hk.le
  have hsize := h.size
  have hlarge := h.large
  rcases hk.result with ⟨hend, -⟩ | ⟨hlt, h0, -⟩ | ⟨hlt, h0, hbad, herr⟩
  · constructor
    · intro hsafe
      refine .inl ⟨by omega, ?_⟩
      by_contra hc
      exact not_safe_of_long h hk (.inl hend) ⟨by decide, .inl (by omega)⟩ hsafe
    · rintro (⟨-, h64⟩ | ⟨hlt, -⟩ | ⟨hlt, -⟩)
      · refine safe_of_short h hk (.inl hend) ?_
        rintro j ⟨-, hj | ⟨rfl, hj⟩⟩ <;> omega
      · omega
      · omega
  · have hlt' : k < entryCount b := by omega
    constructor
    · intro hsafe
      refine .inr (.inl ⟨hlt', h0, ?_⟩)
      by_contra hc
      refine not_safe_of_long h hk (.inr ⟨hlt', h0⟩) ⟨by decide, ?_⟩ hsafe
      omega
    · rintro (⟨hc, -⟩ | ⟨-, -, h64⟩ | ⟨-, hc, -⟩)
      · omega
      · refine safe_of_short h hk (.inr ⟨hlt', h0⟩) ?_
        rintro j ⟨-, hj | ⟨rfl, hj⟩⟩ <;> omega
      · exact absurd h0 hc
  · have hlt' : k < entryCount b := by omega
    obtain ⟨-, hw⟩ := checkEntry_bad h0 hbad
    constructor
    · intro hsafe
      refine .inr (.inr ⟨hlt', h0, hbad, ?_⟩)
      obtain ⟨a, ha, -, hstop⟩ := hw.last
      obtain ⟨room, hr⟩ := (open_reads a).mpr ((mem_validate h hk a).mpr (.inr ⟨k, ⟨hle, .inr ⟨rfl, hlt'⟩⟩, ha⟩))
      rw [← hstop]
      exact hsafe.inside room a hr
    · rintro (⟨hc, -⟩ | ⟨-, hc, -⟩ | ⟨-, -, -, hin⟩)
      · omega
      · exact absurd hc h0
      · have hneg : (validateBootimage sha256 b len).1 < 0 := by
          rw [validate_ok h]
          exact herr
        have hnone : ∀ room bi, (bootimageOpen sha256 room b len).2.1 ≠ some bi :=
          fun room bi hbi => (open_accepted hbi).1 hneg
        refine ⟨fun room a ha => ?_, fun room bi hbi => absurd hbi (hnone room bi),
          fun room bi hbi => absurd hbi (hnone room bi), fun room bi hbi => absurd hbi (hnone room bi)⟩
        rcases (mem_validate h hk a).mp ((open_reads a).mp ⟨room, ha⟩) with ha | ⟨j, hj, ha⟩
        · exact le_trans (headerReads_stop ha).1 hlarge
        · by_cases hp : a.part = .entry
          · obtain ⟨hj2, hj | ⟨rfl, -⟩⟩ := hj
            · obtain ⟨-, m, hm, hw'⟩ := checkEntry_ok (hk.ok j hj2 hj)
              have := hw'.entry a ha hp
              omega
            · exact le_trans (hw.entry a ha hp).2 hin
          · exact le_trans (data_inside hk hj ha hp) hsize

end

/-- **Boot images.**  An image is safe if and only if its directory ends within the first page, or has an entry that
is wrong and within the image, or its header is refused. -/
theorem bootimage_safe (sha256 : List UInt8 → List UInt8) (b : Memory) (len : Nat) :
    Safe sha256 b len ↔ SafeWhen sha256 b len := by
  by_cases h : HeaderOk sha256 b len
  · obtain ⟨k, hk⟩ := checkEntries_cases sha256 b (entryCount b - 2) 2
    rw [safe_iff_end h hk]
    have hle := hk.le
    constructor
    · intro hc _
      refine ⟨k, hle, fun i h1 h2 => ⟨?_, hk.ok i h1 h2⟩, hc⟩
      have := hk.bound
      omega
    · intro hwhen
      obtain ⟨n, hn2, hpast, hc⟩ := hwhen h
      -- the walk ends where the directory does
      suffices e : n = k by rwa [← e]
      rcases Nat.lt_trichotomy n k with hlt | e | hlt
      · have hok := hk.ok n hn2 hlt
        have := hk.bound
        rcases hc with ⟨hc, -⟩ | ⟨-, hc, -⟩ | ⟨-, -, hc, -⟩
        · omega
        · exact absurd hc hok.kind_ne
        · exact absurd hok hc
      · exact e
      · obtain ⟨hcount, hok⟩ := hpast k hle hlt
        rcases hk.result with ⟨h1, -⟩ | ⟨-, h1, -⟩ | ⟨-, -, h1, -⟩
        · omega
        · exact absurd h1 hok.kind_ne
        · exact absurd hok h1
  · exact iff_of_true (safe_of_refused h) fun h' => absurd h' h

end

/-- an info block that tells of 65 entries, and board entries -/
def fullDirectory : Memory := fun k =>
  if k < 128 then
    ([0x69, 0x6e, 0x66, 0x6f, 0, 0, 1, 0, 0, 0x10, 0, 0, 65, 0, 0, 0] : List UInt8).getD (k - 64) 0
  else ([0x74, 0x61, 0x72, 0x67] : List UInt8).getD (k % 64) 0

/-- a good first entry, but for its hash -/
def fullFirst : List UInt8 := [0x66, 0x69, 0x6c, 0x65, 0x62, 0x6f, 0x6f, 0x74, 0, 0, 0, 0, 0, 0x10, 0, 0] ++ BOOT_MAGIC

def fullPage (sha256 : List UInt8 → List UInt8) : Memory := fun k =>
  if k < 64 then (fullFirst ++ sha256 (bytesAt fullDirectory 64 (4096 - 64))).getD k 0 else fullDirectory k

theorem fullPage_directory (sha256 : List UInt8 → List UInt8) {off : Nat} (h : 64 ≤ off) :
    u32At (fullPage sha256) off = u32At fullDirectory off := by
  have hb : ∀ k, fullPage sha256 (off + k) = fullDirectory (off + k) := fun k => if_neg (by omega)
  unfold u32At
  rw [hb 1, hb 2, hb 3, show fullPage sha256 off = fullDirectory off from hb 0]

theorem fullPage_first (sha256 : List UInt8 → List UInt8) {k : Nat} (h : k < 32) :
    fullPage sha256 k = fullFirst.getD k 0 :=
  (if_pos (by omega)).trans (List.getD_append _ _ _ _ h)

theorem fullPage_place (sha256 : List UInt8 → List UInt8) {off : Nat} (h : off < 29) :
    u32At (fullPage sha256) off = u32At (fun k => fullFirst.getD k 0) off := by
  unfold u32At
  rw [fullPage_first _ (by omega), fullPage_first _ (by omega), fullPage_first _ (by omega),
    fullPage_first _ (by omega)]

theorem fullPage_board (sha256 : List UInt8 → List UInt8) {i : Nat} (hi : 2 ≤ i) :
    kind (fullPage sha256) i = KIND_BOARD := by
  have h : ∀ c < 4, fullDirectory (64 * i + c) = ([0x74, 0x61, 0x72, 0x67] : List UInt8).getD c 0 := by
    intro c hc
    unfold fullDirectory
    rw [if_neg (by lia), show (64 * i + c) % 64 = c by lia]
  unfold kind
  rw [fullPage_directory _ (by lia)]
  unfold u32At
  rw [show 64 * i = 64 * i + 0 from rfl, h 0 (by decide), h 1 (by decide), h 2 (by decide), h 3 (by decide)]
  rfl

theorem fullPage_name (sha256 : List UInt8 → List UInt8) : fileName (fullPage sha256) 0 = BOOT_MAGIC := by
  have h : fileName (fullPage sha256) 0 = bytesAt (fun k => fullFirst.getD k 0) 16 16 := by
    unfold fileName bytesAt
    refine List.map_congr_left fun k hk => ?_
    have := List.mem_range.mp hk
    exact fullPage_first _ (by omega)
  rw [h]
  rfl

theorem fullPage_hash {sha256 : List UInt8 → List UInt8} (hsha : ∀ l, (sha256 l).length = 32) :
    sha256 (bytesAt (fullPage sha256) 64 (4096 - 64)) = fileSha256 (fullPage sha256) 0 := by
  have hpage : bytesAt (fullPage sha256) 64 (4096 - 64) = bytesAt fullDirectory 64 (4096 - 64) := by
    unfold bytesAt
    refine List.map_congr_left fun k _ => ?_
    unfold fullPage
    rw [if_neg (by lia)]
  rw [hpage]
  refine List.ext_getElem (by simp [fileSha256, bytesAt, hsha]) fun k h1 h2 => ?_
  have hk : k < 32 := by rwa [hsha] at h1
  have hbyte : (fileSha256 (fullPage sha256) 0)[k] = fullPage sha256 (32 + k) := by simp [fileSha256, bytesAt]
  refine Eq.trans ?_ hbyte.symm
  unfold fullPage
  rw [if_pos (by lia), List.getD_append_right _ _ _ _ (by simp [fullFirst, BOOT_MAGIC])]
  rw [show 32 + k - _ = k by simp [fullFirst, BOOT_MAGIC], List.getD_eq_getElem _ _ h1]

/-- **A page full of entries.**  Whatever the hash function is, the 65th entry is read behind the image. -/
theorem bootimage_safe_fails : ¬ ∃ sha256 : List UInt8 → List UInt8, (∀ l, (sha256 l).length = 32) ∧
    ∀ (b : Memory) (len : Nat), Safe sha256 b len := by
  rintro ⟨sha256, hsha, h⟩
  have hplace := @fullPage_place sha256
  have hdir := @fullPage_directory sha256
  have hcount : entryCount (fullPage sha256) = 65 := (hdir (by decide)).trans (by rfl)
  have hok : HeaderOk sha256 (fullPage sha256) 4096 :=
    ⟨Nat.le_refl _, (hplace (by decide)).trans (by rfl), (hplace (by decide)).trans (by rfl),
      (hplace (by decide)).trans (by rfl), (hplace (by decide)).trans (by rfl), fullPage_name sha256,
      fullPage_hash hsha, (hdir (by decide)).trans (by rfl), (hdir (by decide)).le.trans (by decide),
      (hdir (by decide)).le.trans (by decide)⟩
  obtain ⟨k, hk⟩ := checkEntries_cases sha256 (fullPage sha256) (entryCount (fullPage sha256) - 2) 2
  have hboard := fullPage_board sha256 hk.le
  rcases (safe_iff_end hok hk).mp (h _ _) with ⟨h1, h2⟩ | ⟨-, h1, -⟩ | ⟨-, -, h1, -⟩
  · omega
  · cases h1.symm.trans hboard
  · exact h1 (.inr (.inl hboard))

end LkHv.Bootimage
