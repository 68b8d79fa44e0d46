import LkHv.Fs.SpifsLayout
import LkHv.Kernel.Bytes

/-!
# The SPIFS tables of contents on the device (`lib/fs/spifs/spifs.c`)

A page of the device is a list of slots of 32 bytes; a table is written from one end of the device towards the
other, page by page.  `crc32` is the checksum, any function.

* `TocFile.encode`, `TocFile.decode`, `tocHeader`, `tocFooter`   what a slot holds;
* `packPages`            the pages that `spifs_commit_toc` fills;
* `storePages`           pages written from one end;
* `getTocGeneration`, `spifsMount`   what a mount reads;
* `readToc_store`, `readToc_congr`   a table written is read back; a table is read from its own pages only.
-/

namespace LkHv

def FS_MAGIC : Nat := 0x53504653
def FS_VERSION : Nat := 1
def CORRUPT_TOC : Nat := 0

/-- the 32 bytes of an entry -/
abbrev Slot := List UInt8

/-- the device, page by page -/
abbrev Pages := Nat → List Slot

/-! ## slots -/

namespace TocFile

/-- a `toc_file_t` as its bytes -/
def encode (f : TocFile) : Slot := bytes32 f.pageIdx ++ (bytes32 f.length ++ (bytes32 f.capacity ++ f.filename))

def decode (b : Slot) : TocFile := ⟨u32 b 0, u32 b 4, u32 b 8, (b.drop 12).take MAX_FILENAME_LENGTH⟩

/-- the fields have their sizes -/
def Fits (f : TocFile) : Prop :=
  f.pageIdx < 2 ^ 32 ∧ f.length < 2 ^ 32 ∧ f.capacity < 2 ^ 32 ∧ f.filename.length = MAX_FILENAME_LENGTH

theorem decode_encode {f : TocFile} (h : f.Fits) : decode f.encode = f := by
  obtain ⟨h1, h2, h3, h4⟩ := h
  have e1 : u32 f.encode 0 = f.pageIdx := u32_bytes32 h1 [] _
  have e2 : u32 f.encode 4 = f.length := u32_bytes32 h2 (bytes32 f.pageIdx) _
  have e3 : u32 f.encode 8 = f.capacity := by
    have h := u32_bytes32 h3 (bytes32 f.pageIdx ++ bytes32 f.length) f.filename
    rw [List.append_assoc] at h
    exact h
  have e4 : (f.encode.drop 12).take MAX_FILENAME_LENGTH = f.filename := by
    show f.filename.take MAX_FILENAME_LENGTH = f.filename
    exact List.take_of_length_le (Nat.le_of_eq h4)
  rw [decode, e1, e2, e3, e4]

end TocFile

/-- `toc_header_t` -/
def tocHeader (numEntries generation : Nat) : Slot :=
  bytes32 FS_MAGIC ++ (bytes32 FS_VERSION ++ (bytes32 numEntries ++ (bytes32 generation ++ List.replicate 16 0)))

/-- `toc_footer_t` -/
def tocFooter (checksum : Nat) : Slot := List.replicate 28 0 ++ (bytes32 checksum ++ [])

theorem tocHeader_fields {n g : Nat} (hn : n < 2 ^ 32) (hg : g < 2 ^ 32) : u32 (tocHeader n g) 0 = FS_MAGIC ∧
    u32 (tocHeader n g) 4 = FS_VERSION ∧ u32 (tocHeader n g) 8 = n ∧ u32 (tocHeader n g) 12 = g := by
  refine ⟨u32_bytes32 (by decide) [] _, u32_bytes32 (by decide) (bytes32 FS_MAGIC) _, ?_, ?_⟩
  · have h := u32_bytes32 hn (bytes32 FS_MAGIC ++ bytes32 FS_VERSION) (bytes32 g ++ List.replicate 16 0)
    rw [List.append_assoc] at h
    exact h
  · have h := u32_bytes32 hg (bytes32 FS_MAGIC ++ (bytes32 FS_VERSION ++ bytes32 n)) (List.replicate 16 0)
    rw [List.append_assoc, List.append_assoc] at h
    exact h

theorem tocFooter_checksum {c : Nat} (hc : c < 2 ^ 32) : u32 (tocFooter c) 28 = c :=
  u32_bytes32 hc (List.replicate 28 0) []

/-! ## writing -/

/-- the address of the `k`-th page of a table -/
def tocAddr (pageCount : Nat) : TocPosition → Nat → Nat
  | .front, k => k
  | .back, k => sub32 (sub32 pageCount 1) k

/-- the checksum of some slots, one after the other -/
def crcSlots (crc32 : Nat → Slot → Nat) (slots : List Slot) : Nat := slots.foldl (fun c b => crc32 c b % 2 ^ 32) 0

theorem crcSlots_lt (crc32 : Nat → Slot → Nat) (slots : List Slot) : crcSlots crc32 slots < 2 ^ 32 := by
  have h : ∀ (l : List Slot) (c : Nat), c < 2 ^ 32 → l.foldl (fun c b => crc32 c b % 2 ^ 32) c < 2 ^ 32 := by
    intro l
    induction l with
    | nil =>
      intro c hc
      exact hc
    | cons b l ih =>
      intro c _
      exact ih _ (Nat.mod_lt _ (by decide))
  exact h slots 0 (by decide)

/-- the loop of `spifs_commit_toc`: the pages it fills with `slots`, `buf` the page it is at -/
def packPages (epp : Nat) (footer : Slot) : List Slot → List Slot → List (List Slot)
  | buf, [] => [buf ++ [footer]]
  | buf, b :: slots => if buf.length = epp then buf :: packPages epp footer [b] slots else packPages epp footer (buf ++ [b]) slots

/-- the pages of a table, as `spifs_commit_toc` writes them -/
def tocPages (crc32 : Nat → Slot → Nat) (pageSize numEntries generation : Nat) (files : List TocFile) :
    List (List Slot) :=
  let slots := (tocSlots numEntries files).map TocFile.encode
  let header := tocHeader numEntries generation
  packPages (pageSize / SPIFS_ENTRY_LENGTH) (tocFooter (crcSlots crc32 (header :: slots))) [header] slots

/-- pages written from one end of the device, the first of them at the `k`-th -/
def storePages (pageCount : Nat) (pos : TocPosition) : Nat → List (List Slot) → Pages → Pages
  | _, [], d => d
  | k, page :: pages, d => storePages pageCount pos (k + 1) pages (Function.update d (tocAddr pageCount pos k) page)

/-! ## reading -/

/-- the `i`-th slot of a table, as a cursor gets at it -/
def slotAt (pageSize pageCount : Nat) (d : Pages) (pos : TocPosition) (i : Nat) : Option Slot :=
  let epp := pageSize / SPIFS_ENTRY_LENGTH
  let addr := tocAddr pageCount pos (i / epp)
  if addr < pageCount then (d addr)[i % epp]? else none

/-- `n` slots of a table from the `i`-th on -/
def readSlots (pageSize pageCount : Nat) (d : Pages) (pos : TocPosition) : Nat → Nat → Option (List Slot)
  | _, 0 => some []
  | i, n + 1 =>
    (slotAt pageSize pageCount d pos i).bind fun b => (readSlots pageSize pageCount d pos (i + 1) n).map (b :: ·)

/-- the table that `get_toc_generation` accepts: its generation and its entries -/
def readToc (crc32 : Nat → Slot → Nat) (pageSize pageCount : Nat) (d : Pages) (pos : TocPosition) :
    Option (Nat × List Slot) :=
  (slotAt pageSize pageCount d pos 0).bind fun header =>
    if u32 header 0 ≠ FS_MAGIC then none
    else if u32 header 4 ≠ FS_VERSION then none
    else
      let numTocEntries := u32 header 8
      (readSlots pageSize pageCount d pos 1 numTocEntries).bind fun entries =>
        (slotAt pageSize pageCount d pos (numTocEntries + 1)).bind fun footer =>
          if u32 footer 28 ≠ crcSlots crc32 (header :: entries) then none else some (u32 header 12, entries)

def getTocGeneration (crc32 : Nat → Slot → Nat) (pageSize pageCount : Nat) (d : Pages) (pos : TocPosition) : Nat :=
  match readToc crc32 pageSize pageCount d pos with
  | some (generation, _) => generation
  | none => CORRUPT_TOC

/-- the end whose table a mount uses -/
def selectToc (front back : Nat) : Option TocPosition :=
  if front = CORRUPT_TOC ∧ back = CORRUPT_TOC then none else some (if front > back then .front else .back)

/-- `spifs_mount` -/
def spifsMount (crc32 : Nat → Slot → Nat) (dev : Bio.Bdev) (d : Pages) : Except Int Spifs :=
  match getDevicePageInfo dev with
  | .error err => .error err
  | .ok (pageSize, pageCount) =>
    let front := getTocGeneration crc32 pageSize pageCount d .front
    let back := getTocGeneration crc32 pageSize pageCount d .back
    match selectToc front back with
    | none => .error ERR_CRC_FAIL
    | some pos =>
      match slotAt pageSize pageCount d pos 0 with
      | none => .error ERR_IO
      | some header =>
        match readSlots pageSize pageCount d pos 1 (u32 header 8) with
        | none => .error ERR_IO
        | some entries => spifsMountTable dev (max front back) pos (entries.map TocFile.decode)

/-! ## pages filled -/

theorem packPages_flatten (epp : Nat) (footer : Slot) (l : List Slot) : ∀ buf : List Slot,
    (packPages epp footer buf l).flatten = buf ++ (l ++ [footer]) := by
  induction l with
  | nil =>
    intro buf
    simp [packPages]
  | cons b l ih =>
    intro buf
    rw [packPages]
    split
    · rw [List.flatten_cons, ih]
      rfl
    · rw [ih]
      simp

/-- every page is full, if the slots fill pages -/
theorem packPages_full {epp : Nat} (h2 : 2 ≤ epp) (footer : Slot) (l : List Slot) : ∀ {buf : List Slot},
    buf.length ≤ epp → epp ∣ buf.length + (l.length + 1) → ∀ page ∈ packPages epp footer buf l, page.length = epp := by
  induction l with
  | nil =>
    intro buf hb hd page hp
    rw [packPages] at hp
    rw [List.mem_singleton.mp hp, List.length_append, List.length_singleton]
    obtain ⟨m, hm⟩ := hd
    rw [List.length_nil] at hm
    rcases m with _ | _ | m
    · lia
    · lia
    · have : epp * 2 ≤ epp * (m + 1 + 1) := Nat.mul_le_mul_left _ (by lia)
      lia
  | cons b l ih =>
    intro buf hb hd page hp
    rw [List.length_cons] at hd
    rw [packPages] at hp
    split at hp
    · rename_i hfull
      rcases List.mem_cons.mp hp with rfl | hp
      · exact hfull
      · refine ih (by rw [List.length_singleton]; lia) ?_ page hp
        rw [hfull] at hd
        rw [List.length_singleton, Nat.add_comm 1]
        exact (Nat.dvd_add_right (Nat.dvd_refl epp)).mp hd
    · refine ih ?_ ?_ page hp
      · rw [List.length_append, List.length_singleton]
        lia
      · rw [List.length_append, List.length_singleton]
        have he : buf.length + 1 + (l.length + 1) = buf.length + (l.length + 1 + 1) := by lia
        rw [he]
        exact hd

/-- an element of equal lists in a row -/
theorem getElem?_flatten_full {α : Type} {m : Nat} (hm : 0 < m) {L : List (List α)} (h : ∀ l ∈ L, l.length = m) :
    ∀ i, L.flatten[i]? = L[i / m]?.bind fun l => l[i % m]? := by
  induction L with
  | nil =>
    intro i
    rfl
  | cons l L ih =>
    intro i
    have hl := h l (.head L)
    rw [List.flatten_cons]
    by_cases hi : i < m
    · rw [List.getElem?_append_left (by lia), Nat.div_eq_of_lt hi, Nat.mod_eq_of_lt hi]
      rfl
    · obtain ⟨j, rfl⟩ := Nat.exists_eq_add_of_le (Nat.le_of_not_lt hi)
      rw [List.getElem?_append_right (by lia), hl, Nat.add_sub_cancel_left, ih fun a ha => h a (.tail l ha),
        Nat.add_div_left j hm, Nat.add_mod_left]
      rfl

theorem flatten_length_full {α : Type} {m : Nat} {L : List (List α)} (h : ∀ l ∈ L, l.length = m) :
    L.flatten.length = L.length * m := by
  induction L with
  | nil => rw [List.flatten_nil, List.length_nil, List.length_nil, Nat.zero_mul]
  | cons l L ih =>
    rw [List.flatten_cons, List.length_append, ih fun a ha => h a (.tail l ha), h l (.head L), List.length_cons,
      Nat.succ_mul, Nat.add_comm]

/-! ## pages stored -/

section
variable {pc k : Nat} {pos : TocPosition}

theorem storePages_other (pages : List (List Slot)) : ∀ {k : Nat} {d : Pages} {a : Nat},
    (∀ j < pages.length, a ≠ tocAddr pc pos (k + j)) → storePages pc pos k pages d a = d a := by
  induction pages with
  | nil =>
    intro k d a _
    rfl
  | cons page pages ih =>
    intro k d a ha
    have h0 : a ≠ tocAddr pc pos k := ha 0 (Nat.succ_pos _)
    rw [storePages, ih, Function.update_of_ne h0]
    intro j hj
    have h := ha (j + 1) (Nat.succ_lt_succ hj)
    rw [Nat.add_comm j, ← Nat.add_assoc] at h
    exact h

theorem storePages_at (pages : List (List Slot)) : ∀ {k : Nat} {d : Pages},
    (∀ i j, i < j → j < k + pages.length → tocAddr pc pos i ≠ tocAddr pc pos j) → ∀ j (hj : j < pages.length),
      storePages pc pos k pages d (tocAddr pc pos (k + j)) = pages[j] := by
  induction pages with
  | nil =>
    intro k d _ j hj
    cases hj
  | cons page pages ih =>
    intro k d hinj j hj
    have hlen : k + (page :: pages).length = k + 1 + pages.length := by
      rw [List.length_cons]
      lia
    rw [hlen] at hinj
    cases j with
    | zero =>
      show storePages pc pos (k + 1) pages (Function.update d (tocAddr pc pos k) page) (tocAddr pc pos k) = page
      rw [storePages_other, Function.update_self]
      intro i hi
      exact hinj k (k + 1 + i) (by lia) (by lia)
    | succ j =>
      have hj' : j < pages.length := Nat.lt_of_succ_lt_succ hj
      have h := ih (k := k + 1) (d := Function.update d (tocAddr pc pos k) page) hinj j hj'
      rw [Nat.add_assoc, Nat.add_comm 1] at h
      exact h

end

/-- the pages of a table are pages of the device, one after the other -/
theorem tocAddr_lt {pc k : Nat} (pos : TocPosition) (hk : k < pc) (hpc : pc < 2 ^ 32) : tocAddr pc pos k < pc := by
  cases pos with
  | front => exact hk
  | back =>
    rw [tocAddr, sub32_of_le hpc (by omega), sub32_of_le (by omega) (by omega)]
    omega

theorem tocAddr_ne {pc i j : Nat} (pos : TocPosition) (hij : i < j) (hj : j < pc) (hpc : pc < 2 ^ 32) :
    tocAddr pc pos i ≠ tocAddr pc pos j := by
  cases pos with
  | front => exact hij.ne
  | back =>
    rw [tocAddr, tocAddr, sub32_of_le hpc (by omega), sub32_of_le (by omega) (by omega),
      sub32_of_le (by omega) (by omega)]
    omega

/-! ## reading back -/

section
variable {ps pc : Nat} {d d' : Pages} {pos : TocPosition} {crc32 : Nat → Slot → Nat}

theorem readSlots_eq (l : List Slot) : ∀ {i : Nat}, (∀ j < l.length, slotAt ps pc d pos (i + j) = l[j]?) →
    readSlots ps pc d pos i l.length = some l := by
  induction l with
  | nil =>
    intro i _
    rfl
  | cons b l ih =>
    intro i h
    have h0 : slotAt ps pc d pos i = some b := h 0 (Nat.succ_pos _)
    have hrest : readSlots ps pc d pos (i + 1) l.length = some l := by
      apply ih
      intro j hj
      have h1 := h (j + 1) (Nat.succ_lt_succ hj)
      rw [Nat.add_comm j, ← Nat.add_assoc] at h1
      rw [h1, Nat.add_comm 1]
      rfl
    show ((slotAt ps pc d pos i).bind fun b => (readSlots ps pc d pos (i + 1) l.length).map (b :: ·)) = _
    rw [h0, hrest]
    rfl

theorem readSlots_congr : ∀ {n i : Nat}, (∀ j < n, slotAt ps pc d' pos (i + j) = slotAt ps pc d pos (i + j)) →
    readSlots ps pc d' pos i n = readSlots ps pc d pos i n := by
  intro n
  induction n with
  | zero =>
    intro i _
    rfl
  | succ n ih =>
    intro i h
    have h0 : slotAt ps pc d' pos i = slotAt ps pc d pos i := h 0 (Nat.succ_pos n)
    rw [readSlots, readSlots, h0, ih]
    intro j hj
    have h1 := h (j + 1) (Nat.succ_lt_succ hj)
    rw [Nat.add_comm j, ← Nat.add_assoc] at h1
    exact h1

theorem readSlots_length : ∀ {n i : Nat} {l : List Slot}, readSlots ps pc d pos i n = some l → l.length = n := by
  intro n
  induction n with
  | zero =>
    intro i l h
    rw [← Option.some.inj h]
    rfl
  | succ n ih =>
    intro i l h
    obtain ⟨b, -, h⟩ := Option.bind_eq_some_iff.mp h
    obtain ⟨m, hm, rfl⟩ := Option.map_eq_some_iff.mp h
    rw [List.length_cons, ih hm]

/-- what an accepted table is -/
theorem readToc_some {g : Nat} {entries : List Slot} (h : readToc crc32 ps pc d pos = some (g, entries)) :
    ∃ header footer, slotAt ps pc d pos 0 = some header ∧ u32 header 0 = FS_MAGIC ∧ u32 header 4 = FS_VERSION ∧
      u32 header 8 = entries.length ∧ u32 header 12 = g ∧ readSlots ps pc d pos 1 entries.length = some entries ∧
      slotAt ps pc d pos (entries.length + 1) = some footer ∧ u32 footer 28 = crcSlots crc32 (header :: entries) := by
  obtain ⟨header, hh, h⟩ := Option.bind_eq_some_iff.mp h
  split at h
  · cases h
  rename_i hmagic
  split at h
  · cases h
  rename_i hversion
  obtain ⟨l, hl, h⟩ := Option.bind_eq_some_iff.mp h
  obtain ⟨footer, hf, h⟩ := Option.bind_eq_some_iff.mp h
  split at h
  · cases h
  rename_i hcrc
  obtain ⟨rfl, rfl⟩ := Prod.mk.inj (Option.some.inj h)
  have hlen := readSlots_length hl
  rw [← hlen] at hl hf
  exact ⟨header, footer, hh, not_not.mp hmagic, not_not.mp hversion, hlen.symm, rfl, hl, hf, not_not.mp hcrc⟩

theorem readToc_of {header footer : Slot} {entries : List Slot} (hh : slotAt ps pc d pos 0 = some header)
    (hmagic : u32 header 0 = FS_MAGIC) (hversion : u32 header 4 = FS_VERSION) (hn : u32 header 8 = entries.length)
    (he : readSlots ps pc d pos 1 entries.length = some entries)
    (hf : slotAt ps pc d pos (entries.length + 1) = some footer)
    (hcrc : u32 footer 28 = crcSlots crc32 (header :: entries)) :
    readToc crc32 ps pc d pos = some (u32 header 12, entries) := by
  rw [readToc, hh, Option.bind_some, if_neg (not_not.mpr hmagic), if_neg (not_not.mpr hversion)]
  dsimp only
  rw [hn, he, Option.bind_some, hf, Option.bind_some, if_neg (not_not.mpr hcrc)]

/-- **A table is read from its own pages.** -/
theorem readToc_congr {g pages : Nat} {entries : List Slot} (h : readToc crc32 ps pc d pos = some (g, entries))
    (hn : entries.length + 2 ≤ pages * (ps / SPIFS_ENTRY_LENGTH))
    (hd : ∀ j < pages, d' (tocAddr pc pos j) = d (tocAddr pc pos j)) :
    readToc crc32 ps pc d' pos = some (g, entries) := by
  have hslot : ∀ i < entries.length + 2, slotAt ps pc d' pos i = slotAt ps pc d pos i := by
    intro i hi
    have hj : i / (ps / SPIFS_ENTRY_LENGTH) < pages := Nat.div_lt_of_lt_mul (by rw [Nat.mul_comm]; lia)
    unfold slotAt
    dsimp only
    rw [hd _ hj]
  obtain ⟨header, footer, hh, h1, h2, h3, rfl, he, hf, hcrc⟩ := readToc_some h
  apply readToc_of _ h1 h2 h3 _ _ hcrc
  · rw [hslot 0 (by lia), hh]
  · rw [readSlots_congr, he]
    intro j hj
    exact hslot (1 + j) (by lia)
  · rw [hslot _ (by lia), hf]

/-- **A table written is read back.** -/
theorem readToc_tocPages {n g : Nat} {files : List TocFile} (hn : n < 2 ^ 32) (hg : g < 2 ^ 32)
    (h2 : 2 ≤ ps / SPIFS_ENTRY_LENGTH) (hd : ps / SPIFS_ENTRY_LENGTH ∣ n + 2) (hl : files.length ≤ n)
    (hpc : pc < 2 ^ 32) (hpages : (tocPages crc32 ps n g files).length ≤ pc)
    (hat : ∀ j (hj : j < (tocPages crc32 ps n g files).length),
      d (tocAddr pc pos j) = (tocPages crc32 ps n g files)[j]) :
    readToc crc32 ps pc d pos = some (g, (tocSlots n files).map TocFile.encode) := by
  have hpos : 0 < ps / SPIFS_ENTRY_LENGTH := by lia
  have hlen : ((tocSlots n files).map TocFile.encode).length = n := by
    rw [List.length_map, tocSlots_length hl]
  unfold tocPages at hpages hat
  dsimp only at hpages hat
  generalize hE : (tocSlots n files).map TocFile.encode = entries at *
  generalize hF : tocFooter (crcSlots crc32 (tocHeader n g :: entries)) = footer at *
  have hfull : ∀ page ∈ packPages (ps / SPIFS_ENTRY_LENGTH) footer [tocHeader n g] entries,
      page.length = ps / SPIFS_ENTRY_LENGTH := by
    apply packPages_full h2
    · rw [List.length_singleton]
      lia
    · rw [List.length_singleton, hlen, Nat.add_comm 1]
      exact hd
  have hflat := packPages_flatten (ps / SPIFS_ENTRY_LENGTH) footer entries [tocHeader n g]
  generalize packPages (ps / SPIFS_ENTRY_LENGTH) footer [tocHeader n g] entries = pages at *
  have hcount : pages.length * (ps / SPIFS_ENTRY_LENGTH) = n + 2 := by
    rw [← flatten_length_full hfull, hflat, List.length_append, List.length_append, List.length_singleton,
      List.length_singleton, hlen]
    lia
  -- a slot of the table is an element of what was packed
  have hslot : ∀ i < n + 2, slotAt ps pc d pos i = ([tocHeader n g] ++ (entries ++ [footer]))[i]? := by
    intro i hi
    have hj : i / (ps / SPIFS_ENTRY_LENGTH) < pages.length := by
      apply Nat.div_lt_of_lt_mul
      rw [Nat.mul_comm, hcount]
      exact hi
    unfold slotAt
    dsimp only
    rw [if_pos (tocAddr_lt pos (by lia) hpc), hat _ hj, ← hflat, getElem?_flatten_full hpos hfull,
      List.getElem?_eq_getElem hj]
    rfl
  obtain ⟨hm, hv, hn', hg'⟩ := tocHeader_fields hn hg
  have hh : slotAt ps pc d pos 0 = some (tocHeader n g) := by
    rw [hslot 0 (by lia)]
    rfl
  have he : readSlots ps pc d pos 1 entries.length = some entries := by
    apply readSlots_eq
    intro j hj
    rw [hslot _ (by lia), List.getElem?_append_right (by rw [List.length_singleton]; lia),
      List.length_singleton, Nat.add_sub_cancel_left, List.getElem?_append_left hj]
  have hf : slotAt ps pc d pos (entries.length + 1) = some footer := by
    rw [hlen, hslot _ (by lia), List.getElem?_append_right (by rw [List.length_singleton]; lia),
      List.length_singleton, Nat.add_sub_cancel, List.getElem?_append_right (by lia), hlen, Nat.sub_self]
    rfl
  have hcrc : u32 footer 28 = crcSlots crc32 (tocHeader n g :: entries) := by
    rw [← hF]
    exact tocFooter_checksum (crcSlots_lt _ _)
  rw [readToc_of hh hm hv (hn'.trans hlen.symm) he hf hcrc, hg']

end
/-! ## mounting -/

theorem TocFile.decode_fits {b : Slot} (h : b.length = SPIFS_ENTRY_LENGTH) : (decode b).Fits := by
  refine ⟨u32_lt b 0, u32_lt b 4, u32_lt b 8, ?_⟩
  show ((b.drop 12).take MAX_FILENAME_LENGTH).length = MAX_FILENAME_LENGTH
  rw [List.length_take, List.length_drop, h]
  rfl

/-- the end chosen has the greater generation, and one that is not 0 -/
theorem selectToc_some {front back : Nat} {pos : TocPosition} (h : selectToc front back = some pos) :
    0 < max front back ∧ max front back = match pos with
      | .front => front
      | .back => back := by
  unfold selectToc at h
  split at h
  · cases h
  · rename_i h0
    have hpos : 0 < max front back := by
      unfold CORRUPT_TOC at h0
      omega
    refine ⟨hpos, ?_⟩
    by_cases hlt : front > back
    · rw [if_pos hlt] at h
      obtain rfl := Option.some.inj h
      exact Nat.max_eq_left (Nat.le_of_lt hlt)
    · rw [if_neg hlt] at h
      obtain rfl := Option.some.inj h
      exact Nat.max_eq_right (Nat.le_of_not_lt hlt)

theorem selectToc_front {front back : Nat} : selectToc front back = some .front ↔ back < front := by
  unfold selectToc CORRUPT_TOC
  split
  · simp
    omega
  · split
    · simp
      omega
    · simp
      omega

theorem selectToc_back {front back : Nat} : selectToc front back = some .back ↔ front ≤ back ∧ 0 < back := by
  unfold selectToc CORRUPT_TOC
  split
  · simp
    lia
  · split
    · simp
      lia
    · simp
      lia

section
variable {ps pc : Nat} {d : Pages} {pos : TocPosition} {crc32 : Nat → Slot → Nat} {dev : Bio.Bdev} {g : Nat}
  {entries : List Slot}

theorem getTocGeneration_some (h : readToc crc32 ps pc d pos = some (g, entries)) :
    getTocGeneration crc32 ps pc d pos = g := by
  rw [getTocGeneration, h]

theorem max_generation (hsel : selectToc (getTocGeneration crc32 ps pc d .front)
    (getTocGeneration crc32 ps pc d .back) = some pos) :
    max (getTocGeneration crc32 ps pc d .front) (getTocGeneration crc32 ps pc d .back) =
      getTocGeneration crc32 ps pc d pos := by
  rw [(selectToc_some hsel).2]
  cases pos <;> rfl

/-- **A mount** reads the table that was selected. -/
theorem spifsMount_eq (hinfo : getDevicePageInfo dev = .ok (ps, pc))
    (hsel : selectToc (getTocGeneration crc32 ps pc d .front) (getTocGeneration crc32 ps pc d .back) = some pos)
    (hread : readToc crc32 ps pc d pos = some (g, entries)) :
    spifsMount crc32 dev d = spifsMountTable dev g pos (entries.map TocFile.decode) := by
  obtain ⟨header, footer, hh, -, -, hn, -, he, -, -⟩ := readToc_some hread
  have hmax := max_generation hsel
  rw [getTocGeneration_some hread] at hmax
  rw [spifsMount, hinfo]
  dsimp only
  rw [hsel]
  dsimp only
  rw [hh]
  dsimp only
  rw [hn, he, hmax]

theorem spifsMount_ok {s : Spifs} (h : spifsMount crc32 dev d = .ok s) : ∃ ps pc pos g entries,
    getDevicePageInfo dev = .ok (ps, pc) ∧
    selectToc (getTocGeneration crc32 ps pc d .front) (getTocGeneration crc32 ps pc d .back) = some pos ∧
    readToc crc32 ps pc d pos = some (g, entries) ∧ 0 < g := by
  unfold spifsMount at h
  split at h
  · cases h
  rename_i ps pc hinfo
  dsimp only at h
  split at h
  · cases h
  rename_i pos hsel
  have hpos := (selectToc_some hsel).1
  rw [max_generation hsel] at hpos
  cases hread : readToc crc32 ps pc d pos with
  | none =>
    rw [getTocGeneration, hread] at hpos
    exact absurd hpos (by decide)
  | some r =>
    obtain ⟨g, entries⟩ := r
    rw [getTocGeneration_some hread] at hpos
    exact ⟨ps, pc, pos, g, entries, hinfo, hsel, hread, hpos⟩

end

/-- a table that is laid out passes the check -/
theorem Laid.consistent {ps pc n : Nat} {files : List TocFile} (hp : 0 < ps) (hpc : pc < 2 ^ 32)
    (L : Laid ps pc n files) : consistencyCheck ps files = true := by
  have h : ∀ l : List TocFile, l.Pairwise (fun a b => a.stop ps ≤ b.pageIdx) →
      (∀ f ∈ l, f.pageIdx < f.stop ps ∧ f.pageIdx ≤ pc) → consistencyCheck ps l = true := by
    intro l
    induction l with
    | nil =>
      intro _ _
      rfl
    | cons f l ih =>
      cases l with
      | nil =>
        intro _ _
        rfl
      | cons g t =>
        intro hd hf
        have hfg := (List.pairwise_cons.mp hd).1 g (.head t)
        have h1 := hf f (.head _)
        have h2 := hf g (.tail f (.head t))
        have hend : sub32 (add32 f.pageIdx (f.capacity / ps)) 1 = f.stop ps - 1 := by
          have ha : add32 f.pageIdx (f.capacity / ps) = f.stop ps := add32_of_lt (show f.stop ps < 2 ^ 32 by lia)
          rw [ha]
          exact sub32_of_le (by lia) (by lia)
        rw [consistencyCheck, hend, if_neg (by lia)]
        exact ih (List.pairwise_cons.mp hd).2 fun a ha => hf a (.tail f ha)
  exact h files L.disjoint fun f hf => ⟨Laid.pages_pos hp (L.sized f hf), L.pageIdx_le hf⟩

end LkHv
