import LkHv.Ptable.Alloc
import LkHv.Kernel.Crc32
import Mathlib.Data.List.TakeWhile

/-!
# Partitions are apart

* `Registered`             the entries and the devices of the partitions belong together;
* `ptablePublish_spec`, `reset_spec`, `scanEntries_spec`   what the calls do to them;
* `PtableOk`               the entries in order, apart, aligned, with different names, and so the devices;
* `ptable_disjoint`        every run keeps it whose tables on flash have it and whose names are new ones;
* `not_ptable_disjoint`    a table on flash with two partitions that overlap is accepted.
-/

namespace LkHv
open Bio

/-- the device of an entry -/
def PtableEntry.part (p : Dev) (e : PtableEntry) : BioDev where
  name := e.cname
  dev :=
    match e.subdevice p.dev.blockShift p true with
    | .ok d => d
    | .error _ => p

/-- the bytes of the parent that a device covers -/
def BioDev.range (d : BioDev) : Nat × Nat :=
  match d.dev with
  | .root b => (0, b.totalSize)
  | .sub b _ start => (start.toNat * b.blockSize, (start.toNat + b.blockCount) * b.blockSize)

/-- an entry that was published -/
structure EntryOk (p : Dev) (e : PtableEntry) : Prop where
  valid : validateEntry p.dev.totalSize e = true
  pos : 0 < e.length
  inside : e.stop ≤ p.dev.totalSize
  aligned : 2 ^ p.dev.blockShift ∣ e.offset ∧ 2 ^ p.dev.blockShift ∣ e.length
  published : e.subdevice p.dev.blockShift p true = .ok (e.part p).dev

/-- the table of a device `p` and the devices of its partitions -/
structure Registered (s : Ptable) (p : BioDev) : Prop where
  mounted : s.bdev = some p
  found : s.others.find? (·.name = p.name) = some p
  names : s.list.Pairwise fun a b => a.cname ≠ b.cname
  foreign : ∀ e ∈ s.list, ∀ d ∈ s.others, d.name ≠ e.cname
  entries : ∀ e ∈ s.list, EntryOk p.dev e
  parts : s.parts.Perm (s.list.map (·.part p.dev))

section
variable {s s' : Ptable} {p : BioDev} {e : PtableEntry} {err : Int}

/-! ## devices -/

theorem bioPublishSubdevice_mem {q d : Dev} {mem : Bool} {start count : BitVec 32}
    (h : bioPublishSubdevice (some q) mem start count = .ok d) : bioPublishSubdevice (some q) true start count = .ok d := by
  cases mem with
  | true => exact h
  | false =>
    unfold bioPublishSubdevice at h
    cases h

theorem bioPublishSubdevice_error {q : Dev} {mem : Bool} {start count : BitVec 32}
    (h : bioPublishSubdevice (some q) mem start count = .error err) : err < 0 := by
  unfold bioPublishSubdevice at h
  dsimp only at h
  split at h
  · rw [← Except.error.inj h]
    decide
  split at h
  · split at h
    · rw [← Except.error.inj h]
      decide
    split at h
    · rw [← Except.error.inj h]
      decide
    · cases h
  · split at h
    · rw [← Except.error.inj h]
      decide
    · cases h

theorem bioPublishSubdevice_sub {q d : Dev} {mem : Bool} {start count : BitVec 32}
    (h : bioPublishSubdevice (some q) mem start count = .ok d) :
    ∃ b, d = .sub b q start ∧ b.blockSize = q.dev.blockSize ∧ b.blockCount = count.toNat := by
  unfold bioPublishSubdevice at h
  dsimp only at h
  split at h
  · cases h
  split at h
  · split at h
    · cases h
    split at h
    · cases h
    · rw [← Except.ok.inj h]
      exact ⟨_, rfl, rfl, rfl⟩
  · split at h
    · cases h
    · rw [← Except.ok.inj h]
      exact ⟨_, rfl, rfl, rfl⟩

/-- the block number of an offset -/
theorem block_toNat {q : Dev} {x : Nat} (hd : 2 ^ q.dev.blockShift ∣ x) (hx : x ≤ q.dev.totalSize) :
    (BitVec.ofNat 32 (x >>> q.dev.blockShift)).toNat * q.dev.blockSize = x := by
  have hcount := q.dev.count_lt
  rw [q.dev.total_mul, q.dev.blockSize_eq] at hx
  rw [BitVec.toNat_ofNat, Nat.shiftRight_eq_div_pow, q.dev.blockSize_eq]
  have hle : x / 2 ^ q.dev.blockShift ≤ q.dev.blockCount := by
    rw [Nat.mul_comm] at hx
    exact Nat.div_le_of_le_mul hx
  rw [Nat.mod_eq_of_lt (by lia)]
  exact Nat.div_mul_cancel hd

theorem EntryOk.sub {q : Dev} (h : EntryOk q e) : ∃ b start, (e.part q).dev = .sub b q start ∧
    start.toNat * b.blockSize = e.offset ∧ b.blockCount * b.blockSize = e.length := by
  obtain ⟨b, hb, hbs, hbc⟩ := bioPublishSubdevice_sub h.published
  have hin := h.inside
  unfold PtableEntry.stop at hin
  refine ⟨b, _, hb, ?_, ?_⟩
  · rw [hbs]
    exact block_toNat h.aligned.1 (by lia)
  · rw [hbs, hbc]
    exact block_toNat h.aligned.2 (by lia)

theorem EntryOk.range {q : Dev} (h : EntryOk q e) : (e.part q).range = (e.offset, e.stop) := by
  obtain ⟨b, start, hb, h1, h2⟩ := h.sub
  unfold BioDev.range
  rw [hb]
  dsimp only
  rw [Nat.add_mul, h1, h2]
  rfl

/-- **The erase geometry**: an entry that lies in an erase region starts and ends at its units. -/
theorem EntryOk.units {q : Dev} (h : EntryOk q e) (hr : InRegions q.dev e.offset e.length) (hg : q.dev.geometry ≠ []) :
    ∃ g ∈ q.dev.geometry, g.start ≤ e.offset ∧ e.stop ≤ g.start + g.size ∧ g.eraseSize ∣ e.offset ∧
      g.eraseSize ∣ e.length := by
  obtain ⟨b, hb, hbs, -, hunits⟩ := publish_ok h.published
  obtain ⟨b', start, hb', h1, h2⟩ := h.sub
  rw [hb'] at hb
  injection hb with e1 e2 e3
  subst e1
  rw [e3] at h1
  obtain ⟨g, hg', hle⟩ := hr hg
  have hc : bioContainsRange g.start g.size e.offset e.length = true := by
    rw [← h1, ← h2, containsRange_iff b' q.dev _ hg', Nat.add_mul, h1, h2]
    exact hle
  obtain ⟨r, hr, hfind, hcr⟩ := @findGeo_some _ _ _ none ⟨g, hg', hc⟩
  rw [← h1, ← h2] at hfind hcr
  obtain ⟨h3, h4⟩ := (containsRange_iff b' q.dev _ hr).mp hcr
  obtain ⟨h5, h6⟩ := hunits r hr hfind
  rw [Nat.add_mul, h1, h2] at h4
  rw [h1] at h3 h5
  rw [h2] at h6
  exact ⟨r, hr, h3, h4, h5, h6⟩

/-! ## names -/

theorem unregister_none {name : List UInt8} (h1 : ∀ d ∈ s.others, d.name ≠ name) (h2 : ∀ d ∈ s.parts, d.name ≠ name) :
    s.unregister name = s := by
  unfold Ptable.unregister
  have hany : ¬ (s.others.any (·.name = name)) = true := by
    intro h
    obtain ⟨d, hd, he⟩ := List.any_eq_true.mp h
    exact h1 d hd (of_decide_eq_true he)
  rw [if_neg hany, List.eraseP_of_forall_not]
  intro d hd h
  exact h2 d hd (of_decide_eq_true h)

/-- a device of a partition is taken off, and its entry -/
theorem unregister_part {name : List UInt8} {list : List PtableEntry} {q : Dev} (h1 : ∀ d ∈ s.others, d.name ≠ name)
    (hn : list.Pairwise fun a b => a.cname ≠ b.cname) (hp : s.parts.Perm (list.map (·.part q))) :
    ∃ parts, s.unregister name = { s with parts := parts } ∧
      parts.Perm ((list.eraseP (·.cname = name)).map (·.part q)) := by
  unfold Ptable.unregister
  have hany : ¬ (s.others.any (·.name = name)) = true := by
    intro h
    obtain ⟨d, hd, he⟩ := List.any_eq_true.mp h
    exact h1 d hd (of_decide_eq_true he)
  rw [if_neg hany]
  refine ⟨_, rfl, ?_⟩
  have hpair : (list.map (·.part q)).Pairwise fun a b : BioDev =>
      decide (a.name = name) = true → decide (b.name = name) = true → False := by
    rw [List.pairwise_map]
    refine hn.imp ?_
    intro a b hab ha hb
    exact hab ((of_decide_eq_true ha).trans (of_decide_eq_true hb).symm)
  have h := (List.Perm.eraseP (fun d : BioDev => decide (d.name = name)) hpair hp.symm).symm
  rw [List.eraseP_map] at h
  exact h

/-- no device has a name that is not in the table -/
theorem Registered.part_name (R : Registered s p) {name : List UInt8} (h : ∀ a ∈ s.list, a.cname ≠ name) :
    ∀ d ∈ s.parts, d.name ≠ name := by
  intro d hd
  obtain ⟨a, ha, rfl⟩ := List.mem_map.mp (R.parts.mem_iff.mp hd)
  exact h a ha

theorem Registered.open_parent (R : Registered s p) : s.bioOpen p.name = some p := by
  unfold Ptable.bioOpen
  rw [List.find?_append, R.found]
  rfl

theorem foldl_unregister {q : Dev} : ∀ {list : List PtableEntry} {s : Ptable}, (∀ e ∈ list, ∀ d ∈ s.others, d.name ≠ e.cname) →
    list.Pairwise (fun a b => a.cname ≠ b.cname) → s.parts.Perm (list.map (·.part q)) →
    list.foldl (fun s e => s.unregister e.cname) s = { s with parts := [] } := by
  intro list
  induction list with
  | nil =>
    intro s _ _ hp
    rw [List.map_nil, List.perm_nil] at hp
    show s = _
    rw [← hp]
  | cons e list ih =>
    intro s hf hn hp
    obtain ⟨parts, hs, hperm⟩ := unregister_part (hf e (.head _)) hn hp
    rw [List.eraseP_cons_of_pos (by simp)] at hperm
    rw [List.foldl_cons, hs, ih _ hn.of_cons hperm]
    exact fun a ha => hf a (.tail _ ha)

/-- **`ptable_reset`** takes off the devices of the partitions, and no others. -/
theorem reset_spec (R : Registered s p) : ptableReset s = ⟨none, 0, [], s.others, []⟩ := by
  unfold ptableReset
  rw [foldl_unregister R.foreign R.names R.parts]

theorem reset_unmounted (h1 : s.list = []) (h2 : s.parts = []) : ptableReset s = ⟨none, 0, [], s.others, []⟩ := by
  unfold ptableReset
  rw [h1]
  show (⟨none, 0, [], s.others, s.parts⟩ : Ptable) = _
  rw [h2]

/-! ## entries -/

theorem push_perm (e : PtableEntry) (l : List PtableEntry) : (ptablePushEntry e l).Perm (e :: l) := by
  induction l with
  | nil => exact .refl _
  | cons it l ih =>
    rw [ptablePushEntry]
    split
    · exact .refl _
    · exact (ih.cons it).trans (.swap e it l)

/-- an entry apart from the others goes to its place among them -/
theorem push_apart {l : List PtableEntry} (h : l.Pairwise fun a b => a.stop ≤ b.offset) (hpos : 0 < e.length)
    (hap : ∀ a ∈ l, e.stop ≤ a.offset ∨ a.stop ≤ e.offset) :
    (ptablePushEntry e l).Pairwise fun a b => a.stop ≤ b.offset := by
  induction l with
  | nil => exact List.pairwise_singleton _ _
  | cons it l ih =>
    obtain ⟨hit, hl⟩ := List.pairwise_cons.mp h
    have hap0 := hap it (.head _)
    rw [ptablePushEntry]
    unfold PtableEntry.stop at *
    split
    · refine List.pairwise_cons.mpr ⟨?_, h⟩
      intro a ha
      rcases List.mem_cons.mp ha with rfl | ha
      · omega
      · have := hit a ha
        omega
    · refine List.pairwise_cons.mpr ⟨?_, ih hl fun a ha => hap a (.tail _ ha)⟩
      intro a ha
      rcases List.mem_cons.mp ((push_perm e l).mem_iff.mp ha) with rfl | ha
      · omega
      · exact hit a ha

/-- the state with a new entry -/
def Ptable.push (s : Ptable) (q : Dev) (e : PtableEntry) : Ptable :=
  { s with list := ptablePushEntry e s.list, parts := s.parts ++ [e.part q] }

/-- **`ptable_publish`** leaves everything as it was, or publishes the entry. -/
theorem ptablePublish_spec (R : Registered s p) (hf : ∀ d ∈ s.others, d.name ≠ e.cname) (hl : e.length < 2 ^ 64)
    (mem : PublishMem) : (∃ err, err < 0 ∧ ptablePublish s p e mem = (s, err)) ∨
      EntryOk p.dev e ∧ (∀ a ∈ s.list, a.cname ≠ e.cname) ∧ ptablePublish s p e mem = (s.push p.dev e, 0) := by
  unfold ptablePublish
  dsimp only
  split
  · exact .inl ⟨_, by decide, rfl⟩
  rename_i hvalid
  rw [not_not] at hvalid
  split
  · exact .inl ⟨_, by decide, rfl⟩
  rename_i hfind
  have hnew : ∀ a ∈ s.list, a.cname ≠ e.cname := by
    intro a ha he
    exact hfind (List.any_eq_true.mpr ⟨a, ha, decide_eq_true he⟩)
  split
  · exact .inl ⟨_, by decide, rfl⟩
  rename_i halign
  obtain ⟨ha1, ha2⟩ := not_or.mp halign
  rw [and_mask_ne, not_not] at ha1 ha2
  split
  · exact .inl ⟨_, by decide, rfl⟩
  rename_i hpos
  split
  · exact .inl ⟨_, by decide, rfl⟩
  rename_i hin
  split
  · exact .inl ⟨_, by decide, rfl⟩
  have hun : s.unregister e.cname = s := unregister_none hf (R.part_name hnew)
  rw [R.open_parent]
  dsimp only
  cases hd : e.subdevice p.dev.dev.blockShift p.dev mem.malloc with
  | error err =>
    dsimp only
    rw [hun]
    exact .inl ⟨err, bioPublishSubdevice_error hd, rfl⟩
  | ok d =>
    have hpub : e.subdevice p.dev.dev.blockShift p.dev true = .ok d := bioPublishSubdevice_mem hd
    have hpart : e.part p.dev = ⟨e.cname, d⟩ := by
      unfold PtableEntry.part
      rw [hpub]
    have hsum : add64 e.offset e.length = e.stop := by
      unfold PtableEntry.stop
      unfold add64 at hpos ⊢
      lia
    rw [hsum] at hpos hin
    refine .inr ⟨⟨hvalid, ?_, by lia, ⟨ha1, ha2⟩, ?_⟩, hnew, ?_⟩
    · unfold PtableEntry.stop at hpos
      lia
    · rw [hpart]
      exact hpub
    · unfold Ptable.push
      rw [hpart]

theorem Registered.push (R : Registered s p) (hf : ∀ d ∈ s.others, d.name ≠ e.cname) (hE : EntryOk p.dev e)
    (hn : ∀ a ∈ s.list, a.cname ≠ e.cname) : Registered (s.push p.dev e) p := by
  have hperm := push_perm e s.list
  refine ⟨R.mounted, R.found, ?_, ?_, ?_, ?_⟩
  · refine (hperm.pairwise_iff fun {a b} h => h.symm).mpr (List.pairwise_cons.mpr ⟨?_, R.names⟩)
    exact fun a ha => (hn a ha).symm
  · intro a ha
    rcases List.mem_cons.mp (hperm.mem_iff.mp ha) with rfl | ha
    · exact hf
    · exact R.foreign a ha
  · intro a ha
    rcases List.mem_cons.mp (hperm.mem_iff.mp ha) with rfl | ha
    · exact hE
    · exact R.entries a ha
  · show (s.parts ++ [e.part p.dev]).Perm ((ptablePushEntry e s.list).map _)
    refine (List.perm_append_singleton _ _).trans ?_
    exact (R.parts.cons _).trans (hperm.map (PtableEntry.part p.dev)).symm

/-- the generation is no part of it -/
theorem Registered.gen (R : Registered s p) (g : Nat) : Registered { s with gen := g } p :=
  ⟨R.mounted, R.found, R.names, R.foreign, R.entries, R.parts⟩

theorem write_gen (s : Ptable) (w : WriteEnd) : ∃ g, (ptableWrite s w).1 = { s with gen := g } := by
  unfold ptableWrite
  split
  · exact ⟨s.gen, rfl⟩
  split
  · exact ⟨s.gen, rfl⟩
  split
  · exact ⟨s.gen, rfl⟩
  split
  · exact ⟨s.gen, rfl⟩
  · exact ⟨_, rfl⟩

/-! ## a scan -/

/-- the entries that are read, from `off` on -/
def tableFrom (read : FlashRead) : Nat → Nat → List PtableEntry
  | 0, _ => []
  | n + 1, off =>
    match read off ptableEntrySize with
    | .ok b => PtableEntry.decode b :: tableFrom read n (off + ptableEntrySize)
    | .error _ => []

/-- the table on flash, of as many entries as its header has -/
def flashTable (read : FlashRead) (offset : Nat) : List PtableEntry :=
  match read offset ptableHeaderSize with
  | .ok b => tableFrom read ((u32 b 12 - ptableHeaderSize) / ptableEntrySize) (offset + ptableHeaderSize)
  | .error _ => []

/-- two entries share no byte -/
def EntryApart (a b : PtableEntry) : Prop := a.stop ≤ b.offset ∨ b.stop ≤ a.offset

theorem scanEntries_spec (crc32 : Nat → List UInt8 → Nat) {offset : Nat} {read : FlashRead} : ∀ {n : Nat}
    {mem : List PublishMem} {s : Ptable} {off crc : Nat} {found : Bool}, Registered s p →
    (∀ e ∈ tableFrom read n off, ∀ d ∈ s.others, d.name ≠ e.cname) →
    ∃ s', (scanEntries crc32 p offset read n mem s off crc found).1 = s' ∧ Registered s' p ∧ s'.others = s.others ∧
      (∀ e ∈ s'.list, e ∈ s.list ∨ e ∈ tableFrom read n off) ∧
      ((∀ a ∈ s.list, ∀ e ∈ tableFrom read n off, EntryApart a e) → (tableFrom read n off).Pairwise EntryApart →
        s.list.Pairwise (fun a b => a.stop ≤ b.offset) → s'.list.Pairwise fun a b => a.stop ≤ b.offset) := by
  intro n
  induction n with
  | zero =>
    intro mem s off crc found R _
    exact ⟨s, rfl, R, rfl, fun e he => .inl he, fun _ _ h => h⟩
  | succ n ih =>
    intro mem s off crc found R hf
    have hsame : ∀ l : List PtableEntry, Registered s p ∧ s.others = s.others ∧ (∀ e ∈ s.list, e ∈ s.list ∨ e ∈ l) ∧
        ((∀ a ∈ s.list, ∀ e ∈ l, EntryApart a e) → l.Pairwise EntryApart →
          s.list.Pairwise (fun a b => a.stop ≤ b.offset) → s.list.Pairwise fun a b => a.stop ≤ b.offset) :=
      fun l => ⟨R, rfl, fun e he => .inl he, fun _ _ h => h⟩
    rw [scanEntries]
    cases hread : read off ptableEntrySize with
    | error err => exact ⟨s, rfl, hsame _⟩
    | ok b =>
      have htable : tableFrom read (n + 1) off = PtableEntry.decode b :: tableFrom read n (off + ptableEntrySize) := by
        rw [tableFrom, hread]
      rw [htable] at hf ⊢
      have hlen : (PtableEntry.decode b).length < 2 ^ 64 := u64_lt b 8
      dsimp only
      generalize PtableEntry.decode b = e at *
      rcases ptablePublish_spec R (hf e (.head _)) hlen (mem.headD ⟨true, true⟩) with ⟨err, herr, hpub⟩ | ⟨hE, hnew, hpub⟩
      · rw [hpub]
        dsimp only
        rw [if_pos herr]
        exact ⟨s, rfl, hsame _⟩
      · rw [hpub]
        dsimp only
        rw [if_neg (by decide)]
        have R' := R.push (hf e (.head _)) hE hnew
        have hmem : ∀ a ∈ (s.push p.dev e).list, a = e ∨ a ∈ s.list :=
          fun a ha => List.mem_cons.mp ((push_perm e s.list).mem_iff.mp ha)
        have hone : (∀ a ∈ s.list, ∀ x ∈ e :: tableFrom read n (off + ptableEntrySize), EntryApart a x) →
            s.list.Pairwise (fun a b => a.stop ≤ b.offset) →
            (s.push p.dev e).list.Pairwise fun a b => a.stop ≤ b.offset := by
          intro hap hl
          exact push_apart hl hE.pos fun a ha => (hap a ha e (.head _)).symm
        split
        · refine ⟨_, rfl, R', rfl, ?_, fun hap _ hl => hone hap hl⟩
          intro a ha
          rcases hmem a ha with rfl | ha
          · exact .inr (.head _)
          · exact .inl ha
        · obtain ⟨s', hs', R'', ho, hsub, hpair⟩ := @ih mem.tail (s.push p.dev e) (off + ptableEntrySize)
            (crc32 crc e.encode % 2 ^ 32) (found || e.cname = PTABLE_PART_NAME) R' fun a ha => hf a (.tail _ ha)
          refine ⟨s', hs', R'', ho, ?_, ?_⟩
          · intro a ha
            rcases hsub a ha with h | h
            · rcases hmem a h with rfl | h
              · exact .inr (.head _)
              · exact .inl h
            · exact .inr (.tail _ h)
          · intro hap hpw hl
            obtain ⟨hhead, htail⟩ := List.pairwise_cons.mp hpw
            refine hpair ?_ htail (hone hap hl)
            intro a ha x hx
            rcases hmem a ha with rfl | ha
            · exact hhead x hx
            · exact hap a ha x (.tail _ hx)

/-! ## runs -/

/-- a table that is mounted: its entries in order and apart, each in one erase region -/
structure Mounted (s : Ptable) (p : BioDev) : Prop where
  registered : Registered s p
  apart : s.list.Pairwise fun a b => a.stop ≤ b.offset
  regions : ∀ e ∈ s.list, InRegions p.dev.dev e.offset e.length

/-- nothing is mounted, or a table is -/
def PtableInv (s : Ptable) : Prop := (s.bdev = none ∧ s.list = [] ∧ s.parts = []) ∨ ∃ p, Mounted s p

/-- The names are new ones: no other device has the name of a partition.  The table of a scan that succeeds has
entries that are apart, each in one erase region. -/
def PtableOp.Sound (crc32 : Nat → List UInt8 → Nat) (s : Ptable) : PtableOp → Prop
  | .scan bdevName offset read mem =>
    (∀ e ∈ flashTable read offset, ∀ d ∈ s.others, d.name ≠ e.cname) ∧
      (0 ≤ (ptableScan crc32 s bdevName offset read mem).2 → (flashTable read offset).Pairwise EntryApart ∧
        ∀ p, s.others.find? (·.name = bdevName) = some p →
          ∀ e ∈ flashTable read offset, InRegions p.dev.dev e.offset e.length)
  | .createDefault _ _ _ _ => ∀ d ∈ s.others, d.name ≠ PTABLE_PART_NAME
  | .add name _ _ _ _ => ∀ d ∈ s.others, d.name ≠ name.takeWhile (· ≠ 0)
  | .remove _ _ => True

/-- the start of an entry and its length are at the units of the device: blocks, and those of an erase region -/
def Aligned (b : Bdev) (e : PtableEntry) : Prop :=
  (2 ^ b.blockShift ∣ e.offset ∧ 2 ^ b.blockShift ∣ e.length) ∧ (b.geometry ≠ [] → ∃ g ∈ b.geometry,
    g.start ≤ e.offset ∧ e.stop ≤ g.start + g.size ∧ g.eraseSize ∣ e.offset ∧ g.eraseSize ∣ e.length)

/-- **The table**: in order, apart, on the device and aligned, with different names; no two partitions that are
published share a byte. -/
structure PtableOk (s : Ptable) : Prop where
  apart : s.list.Pairwise fun a b => a.stop ≤ b.offset
  names : s.list.Pairwise fun a b => a.cname ≠ b.cname
  inside : ∀ p, s.bdev = some p → ∀ e ∈ s.list, e.stop ≤ p.dev.dev.totalSize ∧ Aligned p.dev.dev e
  parts : s.parts.Pairwise fun a b => a.range.2 ≤ b.range.1 ∨ b.range.2 ≤ a.range.1

theorem PtableInv.reset (I : PtableInv s) : ptableReset s = ⟨none, 0, [], s.others, []⟩ := by
  rcases I with ⟨-, h1, h2⟩ | ⟨p, M⟩
  · exact reset_unmounted h1 h2
  · exact reset_spec M.registered

theorem PtableInv.unmounted (g : Nat) (others : List BioDev) : PtableInv ⟨none, g, [], others, []⟩ := .inl ⟨rfl, rfl, rfl⟩

/-- a device that was opened, with no entries -/
theorem registered_nil {others : List BioDev} {name : List UInt8} (h : others.find? (·.name = name) = some p) :
    Registered ⟨some p, 0, [], others, []⟩ p := by
  have hname : p.name = name := by
    have h := List.find?_some h
    exact of_decide_eq_true h
  refine ⟨rfl, ?_, .nil, fun _ he => (List.not_mem_nil he).elim, fun _ he => (List.not_mem_nil he).elim, .nil⟩
  rw [hname]
  exact h

theorem mounted_nil {others : List BioDev} {name : List UInt8} (h : others.find? (·.name = name) = some p) :
    Mounted ⟨some p, 0, [], others, []⟩ p :=
  ⟨registered_nil h, .nil, fun _ he => (List.not_mem_nil he).elim⟩

theorem Mounted.gen (M : Mounted s p) (g : Nat) : Mounted { s with gen := g } p := ⟨M.registered.gen g, M.apart, M.regions⟩

theorem Mounted.write (M : Mounted s p) (w : WriteEnd) : Mounted (ptableWrite s w).1 p := by
  obtain ⟨g, hg⟩ := write_gen s w
  rw [hg]
  exact M.gen g

theorem Mounted.ordered (M : Mounted s p) : Ordered p.dev.dev s.list :=
  ⟨M.apart, fun e he => (M.registered.entries e he).inside, fun e he => (M.registered.entries e he).aligned⟩

/-- an entry where the allocator found room -/
theorem Mounted.push (M : Mounted s p) (hf : ∀ d ∈ s.others, d.name ≠ e.cname) (hE : EntryOk p.dev e)
    (hn : ∀ a ∈ s.list, a.cname ≠ e.cname) (F : Fits p.dev.dev s.list e.offset e.length) : Mounted (s.push p.dev e) p := by
  refine ⟨M.registered.push hf hE hn, push_apart M.apart hE.pos F.free, ?_⟩
  intro a ha
  rcases List.mem_cons.mp ((push_perm e s.list).mem_iff.mp ha) with rfl | ha
  · exact F.regions
  · exact M.regions a ha

/-- **A scan** -/
theorem PtableInv.scan {crc32 : Nat → List UInt8 → Nat} (I : PtableInv s) {bdevName : List UInt8} {offset : Nat}
    {read : FlashRead} {mem : List PublishMem} (h : (PtableOp.scan bdevName offset read mem).Sound crc32 s) :
    PtableInv (ptableScan crc32 s bdevName offset read mem).1 := by
  obtain ⟨hf, hacc⟩ := h
  unfold ptableScan at hacc ⊢
  rw [I.reset] at hacc ⊢
  dsimp only at hacc ⊢
  have hopen : (⟨none, 0, [], s.others, []⟩ : Ptable).bioOpen bdevName = s.others.find? (·.name = bdevName) := by
    unfold Ptable.bioOpen
    rw [List.append_nil]
  rw [hopen] at hacc ⊢
  cases hp : s.others.find? (·.name = bdevName) with
  | none =>
    dsimp only
    rw [reset_unmounted rfl rfl]
    exact .unmounted 0 _
  | some p =>
    rw [hp] at hacc
    dsimp only at hacc ⊢
    have R := registered_nil hp
    have hreset : PtableInv (ptableReset ⟨some p, 0, [], s.others, []⟩) := by
      rw [reset_spec R]
      exact .unmounted 0 _
    cases hread : read offset ptableHeaderSize with
    | error err => exact hreset
    | ok b =>
      rw [hread] at hacc
      dsimp only at hacc ⊢
      split
      · exact .inr ⟨p, mounted_nil hp⟩
      rename_i hshort
      rw [if_neg hshort] at hacc
      split
      · exact hreset
      rename_i hmagic
      rw [if_neg hmagic] at hacc
      split
      · exact hreset
      rename_i hlow
      rw [if_neg hlow] at hacc
      split
      · exact hreset
      rename_i hhigh
      rw [if_neg hhigh] at hacc
      split
      · exact hreset
      rename_i hmod
      rw [if_neg hmod] at hacc
      have htable : flashTable read offset =
          tableFrom read ((u32 b 12 - ptableHeaderSize) / ptableEntrySize) (offset + ptableHeaderSize) := by
        unfold flashTable
        rw [hread]
      rw [htable] at hf hacc
      obtain ⟨s', hs', R', -, hsub, hpair⟩ := @scanEntries_spec p crc32 offset read _ mem _ _
        (crc32 0 (ptableHeader 0 (u32 b 8) (u32 b 12)) % 2 ^ 32) false R hf
      generalize scanEntries crc32 p offset read _ mem _ _ _ false = r at hs' hacc ⊢
      obtain ⟨s1, r⟩ := r
      obtain rfl : s1 = s' := hs'
      have hreset' : PtableInv (ptableReset s1) := by
        rw [reset_spec R']
        exact .unmounted 0 _
      cases r with
      | error err => exact hreset'
      | ok r =>
        dsimp only at hacc ⊢
        split
        · exact hreset'
        rename_i hcrc
        rw [if_neg hcrc] at hacc
        split
        · exact hreset'
        rename_i hfound
        rw [if_neg hfound] at hacc
        obtain ⟨hap, hreg⟩ := hacc (Int.le_refl 0)
        refine .inr ⟨p, R', hpair (fun a ha => by cases ha) hap .nil, ?_⟩
        intro e he
        rcases hsub e he with h | h
        · cases h
        · exact hreg p rfl e h

theorem cname_ptableName {name : List UInt8} (hl : name.length ≤ MAX_FLASH_PTABLE_NAME_LEN - 1) (h0 : ∀ c ∈ name, c ≠ 0)
    (offset length flags : Nat) : (⟨offset, length, flags, ptableName name⟩ : PtableEntry).cname = name := by
  unfold PtableEntry.cname ptableName
  dsimp only
  rw [List.take_of_length_le hl, List.takeWhile_append_of_pos (by simpa using h0)]
  have hpos : 0 < MAX_FLASH_PTABLE_NAME_LEN - name.length := by
    unfold MAX_FLASH_PTABLE_NAME_LEN at *
    omega
  obtain ⟨k, hk⟩ := Nat.exists_eq_succ_of_ne_zero (Nat.ne_of_gt hpos)
  rw [hk, List.replicate_succ, List.takeWhile_cons_of_neg (by decide), List.append_nil]

theorem takeWhile_ne (name : List UInt8) : ∀ c ∈ name.takeWhile (· ≠ 0), c ≠ 0 := by
  intro c hc
  simpa using List.mem_takeWhile_imp hc

/-- a commit keeps what is mounted -/
theorem PtableInv.commit {r : Ptable × Option Int} (I : PtableInv r.1) (w : WriteEnd) : PtableInv (commitTable w r).1 := by
  obtain ⟨s, err⟩ := r
  cases err with
  | some err => exact I
  | none =>
    rcases I with ⟨h1, h2, h3⟩ | ⟨p, M⟩
    · obtain ⟨g, hg⟩ := write_gen s w
      show PtableInv (ptableWrite s w).1
      rw [hg]
      exact .inl ⟨h1, h2, h3⟩
    · exact .inr ⟨p, M.write w⟩

/-- **`ptable_create_default`** resets the table, or has the entry of the table itself. -/
theorem prepareCreate_spec (I : PtableInv s) (hf : ∀ d ∈ s.others, d.name ≠ PTABLE_PART_NAME) (bdevName : List UInt8)
    (offset : Nat) (mem : PublishMem) :
    (∃ err, prepareCreate s bdevName offset mem = some (⟨none, 0, [], s.others, []⟩, some err) ∧ err < 0) ∨
      ∃ p len e, e = ⟨offset, len, 0, ptableName PTABLE_PART_NAME⟩ ∧ e.cname = PTABLE_PART_NAME ∧
        prepareCreate s bdevName offset mem = some (Ptable.push ⟨some p, 0, [], s.others, []⟩ p.dev e, none) ∧
        s.others.find? (·.name = bdevName) = some p ∧ EntryOk p.dev e ∧ Fits p.dev.dev [] e.offset e.length := by
  unfold prepareCreate
  rw [I.reset]
  dsimp only
  have hopen : (⟨none, 0, [], s.others, []⟩ : Ptable).bioOpen bdevName = s.others.find? (·.name = bdevName) := by
    unfold Ptable.bioOpen
    rw [List.append_nil]
  rw [hopen]
  cases hp : s.others.find? (·.name = bdevName) with
  | none => exact .inl ⟨_, rfl, by decide⟩
  | some p =>
    dsimp only
    have R := registered_nil hp
    have hempty : ∀ e ∈ ([] : List PtableEntry), e.stop ≤ p.dev.dev.totalSize := fun e he => by cases he
    have hsmall : ptableLength PTABLE_MIN_ENTRIES < 2 ^ 62 := by decide
    obtain ⟨r, hr, herr, hfit⟩ := allocateAt_spec offset hempty hsmall
    rw [hr]
    cases r with
    | error err =>
      dsimp only
      rw [reset_spec R]
      exact .inl ⟨err, rfl, herr err rfl⟩
    | ok len =>
      dsimp only
      have hcname := cname_ptableName (show PTABLE_PART_NAME.length ≤ MAX_FLASH_PTABLE_NAME_LEN - 1 by decide)
        (by simp [PTABLE_PART_NAME]) offset len 0
      have hlt : len < 2 ^ 64 := by
        rcases Nat.eq_zero_or_pos len with h | h
        · omega
        · have h1 := (hfit len rfl h).inside
          have h2 := p.dev.dev.total_lt
          omega
      have hf' : ∀ d ∈ s.others, d.name ≠ (⟨offset, len, 0, ptableName PTABLE_PART_NAME⟩ : PtableEntry).cname := by
        rw [hcname]
        exact hf
      rcases ptablePublish_spec R hf' hlt mem with ⟨err, herr, hpub⟩ | ⟨hE, hnew, hpub⟩
      · rw [hpub]
        dsimp only
        rw [if_pos herr, reset_spec R]
        exact .inl ⟨err, rfl, herr⟩
      · rw [hpub]
        exact .inr ⟨p, len, _, rfl, hcname, rfl, rfl, hE, hfit len rfl hE.pos⟩

theorem PtableInv.prepareCreate (I : PtableInv s) (hf : ∀ d ∈ s.others, d.name ≠ PTABLE_PART_NAME) (bdevName : List UInt8)
    (offset : Nat) (mem : PublishMem) : ∃ r, prepareCreate s bdevName offset mem = some r ∧ PtableInv r.1 := by
  rcases prepareCreate_spec I hf bdevName offset mem with ⟨err, h, -⟩ | ⟨p, len, e, -, hname, h, hp, hE, hF⟩
  · exact ⟨_, h, .unmounted 0 _⟩
  · rw [← hname] at hf
    exact ⟨_, h, .inr ⟨p, (mounted_nil hp).push hf hE (fun a ha => (List.not_mem_nil ha).elim) hF⟩⟩

/-- **`ptable_add`** leaves everything as it was, or has one more entry. -/
theorem prepareAdd_spec (M : Mounted s p) {name : List UInt8} (hf : ∀ d ∈ s.others, d.name ≠ name) (h0 : ∀ c ∈ name, c ≠ 0)
    (minLen : Nat) (allocEnd : Bool) (mem : PublishMem) :
    (∃ err, prepareAdd s name minLen allocEnd mem = some (s, some err) ∧ err < 0) ∨
      ∃ offset len e, e = ⟨offset, len, 0, ptableName name⟩ ∧ e.cname = name ∧
        prepareAdd s name minLen allocEnd mem = some (s.push p.dev e, none) ∧ EntryOk p.dev e ∧
        (∀ a ∈ s.list, a.cname ≠ e.cname) ∧ Fits p.dev.dev s.list e.offset e.length := by
  unfold prepareAdd
  rw [M.registered.mounted]
  dsimp only
  split
  · exact .inl ⟨_, rfl, by decide⟩
  rename_i hl
  obtain ⟨r, hr, herr, hfit⟩ := allocate_spec M.ordered minLen allocEnd
  rw [hr]
  cases r with
  | error err => exact .inl ⟨err, rfl, herr err rfl⟩
  | ok r =>
    obtain ⟨offset, len⟩ := r
    have hF := hfit offset len rfl
    dsimp only
    have hcname := cname_ptableName (Nat.le_of_not_lt hl) h0 offset len 0
    have hlt : len < 2 ^ 64 := by
      have h1 := hF.inside
      have h2 := p.dev.dev.total_lt
      lia
    have hf' : ∀ d ∈ s.others, d.name ≠ (⟨offset, len, 0, ptableName name⟩ : PtableEntry).cname := by
      rw [hcname]
      exact hf
    rcases ptablePublish_spec M.registered hf' hlt mem with ⟨err, herr, hpub⟩ | ⟨hE, hnew, hpub⟩
    · rw [hpub]
      dsimp only
      rw [if_pos herr]
      exact .inl ⟨err, rfl, herr⟩
    · rw [hpub]
      exact .inr ⟨offset, len, _, rfl, hcname, rfl, hE, hnew, hF⟩

theorem PtableInv.prepareAdd (I : PtableInv s) {name : List UInt8} (hf : ∀ d ∈ s.others, d.name ≠ name)
    (h0 : ∀ c ∈ name, c ≠ 0) (minLen : Nat) (allocEnd : Bool) (mem : PublishMem) :
    ∃ r, prepareAdd s name minLen allocEnd mem = some r ∧ PtableInv r.1 := by
  rcases I with ⟨h, h1, h2⟩ | ⟨p, M⟩
  · unfold LkHv.prepareAdd
    rw [h]
    exact ⟨_, rfl, .inl ⟨h, h1, h2⟩⟩
  · rcases prepareAdd_spec M hf h0 minLen allocEnd mem with ⟨err, h, -⟩ | ⟨offset, len, e, -, hname, h, hE, hnew, hF⟩
    · exact ⟨_, h, .inr ⟨p, M⟩⟩
    · rw [← hname] at hf
      exact ⟨_, h, .inr ⟨p, M.push hf hE hnew hF⟩⟩

/-- **`ptable_remove`** leaves everything as it was, or has one entry less. -/
theorem prepareRemove_spec (M : Mounted s p) (name : List UInt8) :
    (∃ err, prepareRemove s name = some (s, some err) ∧ err < 0) ∨
      name ≠ PTABLE_PART_NAME ∧ ∃ parts, prepareRemove s name =
        some ({ s with list := s.list.eraseP (·.cname = name), parts := parts }, none) ∧
        Mounted { s with list := s.list.eraseP (·.cname = name), parts := parts } p := by
  have R := M.registered
  have hb : ¬ s.bdev.isNone = true := by
    rw [R.mounted]
    simp
  unfold prepareRemove
  rw [if_neg hb]
  split
  · exact .inl ⟨_, rfl, by decide⟩
  rename_i hne
  split
  · rename_i hfind
    obtain ⟨e, he, hname⟩ := List.any_eq_true.mp hfind
    have hname : e.cname = name := of_decide_eq_true hname
    have hf : ∀ d ∈ s.others, d.name ≠ name := by
      rw [← hname]
      exact R.foreign e he
    obtain ⟨parts, hs, hperm⟩ := unregister_part hf R.names R.parts
    rw [hs]
    have hsub : (s.list.eraseP (·.cname = name)).Sublist s.list := List.eraseP_sublist
    refine .inr ⟨hne, parts, rfl, ⟨R.mounted, R.found, R.names.sublist hsub, ?_, ?_, hperm⟩, M.apart.sublist hsub, ?_⟩
    · exact fun e he => R.foreign e (hsub.mem he)
    · exact fun e he => R.entries e (hsub.mem he)
    · exact fun e he => M.regions e (hsub.mem he)
  · exact .inl ⟨_, rfl, by decide⟩

theorem PtableInv.prepareRemove (I : PtableInv s) {name : List UInt8} {r : Ptable × Option Int}
    (h : prepareRemove s name = some r) : PtableInv r.1 := by
  rcases I with ⟨hb, -, -⟩ | ⟨p, M⟩
  · unfold LkHv.prepareRemove at h
    rw [hb, if_pos (by decide)] at h
    cases h
  · rcases prepareRemove_spec M name with ⟨err, hr, -⟩ | ⟨-, parts, hr, M'⟩
    · obtain rfl := Option.some.inj (hr.symm.trans h)
      exact .inr ⟨p, M⟩
    · obtain rfl := Option.some.inj (hr.symm.trans h)
      exact .inr ⟨p, M'⟩

theorem PtableInv.ok (I : PtableInv s) : PtableOk s := by
  rcases I with ⟨hb, hl, hp⟩ | ⟨p, M⟩
  · refine ⟨?_, ?_, ?_, ?_⟩
    · rw [hl]
      exact .nil
    · rw [hl]
      exact .nil
    · intro p h
      rw [hb] at h
      cases h
    · rw [hp]
      exact .nil
  · have R := M.registered
    refine ⟨M.apart, R.names, ?_, ?_⟩
    · intro q hq e he
      obtain rfl := Option.some.inj (R.mounted.symm.trans hq)
      have hE := R.entries e he
      exact ⟨hE.inside, hE.aligned, hE.units (M.regions e he)⟩
    · refine (R.parts.pairwise_iff fun {a b} h => h.symm).mpr ?_
      rw [List.pairwise_map]
      refine List.Pairwise.imp_of_mem ?_ M.apart
      intro a b ha hb hab
      rw [(R.entries a ha).range, (R.entries b hb).range]
      exact .inl hab

/-- no assertion of the allocator fails -/
theorem PtableInv.add_isSome (I : PtableInv s) (name : List UInt8) (minLen : Nat) (allocEnd : Bool) (mem : PublishMem) :
    (LkHv.prepareAdd s name minLen allocEnd mem).isSome := by
  unfold LkHv.prepareAdd
  rcases I with ⟨h, -, -⟩ | ⟨p, M⟩
  · rw [h]
    rfl
  rw [M.registered.mounted]
  dsimp only
  split
  · rfl
  obtain ⟨r, hr, -⟩ := allocate_spec M.ordered minLen allocEnd
  rw [hr]
  cases r with
  | error err => rfl
  | ok r =>
    dsimp only
    split
    · rfl
    · rfl

/-- **Partitions are apart.**  In every run whose tables on flash have entries that are apart, each in one erase
region, and whose names are new ones, the table and the devices are as they should be, and `ptable_add` fails no
assertion. -/
theorem ptable_disjoint {crc32 : Nat → List UInt8 → Nat} (h : (ptableSys crc32).Run (fun s op => op.Sound crc32 s) s) :
    PtableOk s ∧ ∀ name minLen allocEnd mem w, (ptableCall crc32 s (.add name minLen allocEnd mem w)).isSome := by
  have I : PtableInv s := by
    apply h.invariant (I := PtableInv)
    · intro s h
      exact .inl h
    · intro s op s' I hg hst
      obtain ⟨r, hr, rfl⟩ := Option.map_eq_some_iff.mp hst
      cases op with
      | scan bdevName offset read mem =>
        obtain rfl := Option.some.inj hr
        exact I.scan hg
      | createDefault bdevName offset mem w =>
        obtain ⟨t, ht, rfl⟩ := Option.map_eq_some_iff.mp hr
        obtain ⟨t', ht', It⟩ := I.prepareCreate hg bdevName offset mem
        obtain rfl := Option.some.inj (ht'.symm.trans ht)
        have Iw := It.commit w
        dsimp only
        split
        · rw [Iw.reset]
          exact .unmounted 0 _
        · exact Iw
      | add name minLen allocEnd mem w =>
        obtain ⟨t, ht, rfl⟩ := Option.map_eq_some_iff.mp hr
        obtain ⟨t', ht', It⟩ := I.prepareAdd hg (takeWhile_ne name) minLen allocEnd mem
        obtain rfl := Option.some.inj (ht'.symm.trans ht)
        exact It.commit w
      | remove name w =>
        obtain ⟨t, ht, rfl⟩ := Option.map_eq_some_iff.mp hr
        exact (I.prepareRemove ht).commit w
  refine ⟨I.ok, ?_⟩
  intro name minLen allocEnd mem w
  show ((LkHv.prepareAdd s _ minLen allocEnd mem).map _).isSome
  rw [Option.isSome_map]
  exact I.add_isSome _ minLen allocEnd mem

end

/-! ## a table of two entries -/

/-- 4096 blocks of 512 bytes, with a name, before any scan -/
def bareFlash : Ptable := ⟨none, 0, [], [⟨[102], .root Bio.smallDev⟩], []⟩

/-- a table at the start of the flash -/
def flashOf (entries : List PtableEntry) : FlashRead := fun off len =>
  let total := ptableLength entries.length
  let crc := entries.foldl (fun c e => crc32 c e.encode) (crc32 0 (ptableHeader 0 0 total))
  .ok (((ptableHeader crc 0 total ++ entries.flatMap PtableEntry.encode).drop off).take len)

/-- the entry of the table itself -/
def ptableEntry : PtableEntry := ⟨0, 1024, 0, ptableName PTABLE_PART_NAME⟩

/-- a partition of two blocks -/
def smallEntry (offset : Nat) : PtableEntry := ⟨offset, 1024, 0, ptableName [97]⟩

theorem ptable_disjoint_scan : (ptableScan crc32 bareFlash [102] 0 (flashOf [ptableEntry, smallEntry 1024]) []).2 = 0 ∧
    PtableOk (ptableScan crc32 bareFlash [102] 0 (flashOf [ptableEntry, smallEntry 1024]) []).1 ∧
    ∀ name minLen allocEnd mem w, (ptableCall crc32 (ptableScan crc32 bareFlash [102] 0
      (flashOf [ptableEntry, smallEntry 1024]) []).1 (.add name minLen allocEnd mem w)).isSome := by
  have htable : flashTable (flashOf [ptableEntry, smallEntry 1024]) 0 = [ptableEntry, smallEntry 1024] := by
    decide
  have hg : (PtableOp.scan [102] 0 (flashOf [ptableEntry, smallEntry 1024]) []).Sound crc32 bareFlash := by
    refine ⟨?_, fun _ => ⟨?_, ?_⟩⟩
    · rw [htable]
      decide
    · rw [htable]
      refine List.pairwise_cons.mpr ⟨?_, List.pairwise_singleton _ _⟩
      intro e he
      rw [List.mem_singleton.mp he]
      exact .inl (by decide)
    · intro p hp e _ h
      obtain rfl : (⟨[102], .root Bio.smallDev⟩ : BioDev) = p := Option.some.inj hp
      exact absurd rfl h
  refine ⟨by decide +kernel, ?_⟩
  exact ptable_disjoint (.step (s := bareFlash) (.init ⟨rfl, rfl, rfl⟩) hg rfl)

/-- a table whose second entry lies on the table itself is accepted -/
theorem not_ptable_disjoint : ¬ ∀ s, (ptableSys crc32).Reach s →
    PtableOk s ∧ ∀ name minLen allocEnd mem w, (ptableCall crc32 s (.add name minLen allocEnd mem w)).isSome := by
  intro hall
  have h := hall (ptableScan crc32 bareFlash [102] 0 (flashOf [ptableEntry, smallEntry 512]) []).1
    (.step (s := bareFlash) (a := .scan [102] 0 (flashOf [ptableEntry, smallEntry 512]) []) (.init ⟨rfl, rfl, rfl⟩) trivial rfl)
  have hlist : (ptableScan crc32 bareFlash [102] 0 (flashOf [ptableEntry, smallEntry 512]) []).1.list =
      [ptableEntry, smallEntry 512] := by
    decide +kernel
  have hap := h.1.apart
  rw [hlist] at hap
  have := (List.pairwise_cons.mp hap).1 (smallEntry 512) (.head _)
  exact absurd this (by decide)

end LkHv
