import LkHv.Fs.Spifs
import Mathlib.Data.List.Nodup

/-!
# The layout of a SPIFS table

* `Laid`                    runs of pages in order and apart, sized in pages, strictly between the two tables;
* `findOpenRun_spec`, `addAscending_spec`   the gap found for a file, and where the file goes in the list;
* `Laid.insert`, `Laid.keep`, `Laid.relength`   what a new file, a removal and a new length do to it;
* `Laid.of_format`          a format whose tables do not wrap;
* `SpifsOp.Fits`, `laid_run`   the condition on the calls, and the layout in every state of such a run.
-/

namespace LkHv

/-- the page after a file -/
def TocFile.stop (pageSize : Nat) (f : TocFile) : Nat := f.pageIdx + f.capacity / pageSize

/-- **The layout of a table** of `numEntries` entries: its first and last entry stand for the two tables. -/
structure Laid (pageSize pageCount numEntries : Nat) (files : List TocFile) : Prop where
  sorted : files.Pairwise fun a b => a.pageIdx < b.pageIdx
  disjoint : files.Pairwise fun a b => a.stop pageSize ≤ b.pageIdx
  sized : ∀ f ∈ files, 0 < f.capacity ∧ pageSize ∣ f.capacity ∧ f.length ≤ f.capacity
  between : ∃ front mid back, files = front :: (mid ++ [back]) ∧
    tocPageCount pageSize numEntries ≤ front.stop pageSize ∧
    back.pageIdx + tocPageCount pageSize numEntries ≤ pageCount ∧
    ∀ f ∈ mid, tocPageCount pageSize numEntries ≤ f.pageIdx ∧
      f.stop pageSize + tocPageCount pageSize numEntries ≤ pageCount

namespace Laid
variable {ps pc n : Nat} {files : List TocFile}

/-- the files between the tables follow from the order -/
theorem of_ends {front back : TocFile} {mid : List TocFile}
    (hs : (front :: (mid ++ [back])).Pairwise fun a b => a.pageIdx < b.pageIdx)
    (hd : (front :: (mid ++ [back])).Pairwise fun a b => a.stop ps ≤ b.pageIdx)
    (hz : ∀ f ∈ front :: (mid ++ [back]), 0 < f.capacity ∧ ps ∣ f.capacity ∧ f.length ≤ f.capacity)
    (hf : tocPageCount ps n ≤ front.stop ps) (hb : back.pageIdx + tocPageCount ps n ≤ pc) :
    Laid ps pc n (front :: (mid ++ [back])) := by
  refine ⟨hs, hd, hz, front, mid, back, rfl, hf, hb, fun f hm => ⟨?_, ?_⟩⟩
  · have h := (List.pairwise_cons.mp hd).1 f (List.mem_append_left _ hm)
    lia
  · have h := (List.pairwise_append.mp (List.pairwise_cons.mp hd).2).2.2 f hm back (.head [])
    lia

theorem pages_pos (hp : 0 < ps) {f : TocFile} (h : 0 < f.capacity ∧ ps ∣ f.capacity ∧ f.length ≤ f.capacity) :
    f.pageIdx < f.stop ps := by
  have := Nat.div_pos (Nat.le_of_dvd h.1 h.2.1) hp
  unfold TocFile.stop
  omega

/-- a page number of a table is one of the device -/
theorem pageIdx_le (L : Laid ps pc n files) {f : TocFile} (hf : f ∈ files) : f.pageIdx ≤ pc := by
  obtain ⟨front, mid, back, rfl, -, hb, hm⟩ := L.between
  have hs := (List.pairwise_cons.mp L.sorted).1
  rcases List.mem_cons.mp hf with rfl | hf
  · have := hs back (by simp)
    lia
  · rcases List.mem_append.mp hf with hf | hf
    · have h1 : f.pageIdx ≤ f.stop ps := Nat.le_add_right _ _
      have h2 := (hm f hf).2
      lia
    · rw [List.mem_singleton.mp hf]
      lia

/-! ## a new file -/

/-- two lists with a new element between the same neighbours have the same ends -/
theorem ends_insert {α : Type} {front back f x g : α} {mid l t : List α}
    (h : front :: (mid ++ [back]) = l ++ f :: g :: t) : ∃ mid', l ++ f :: x :: g :: t = front :: (mid' ++ [back]) := by
  have hlast : ∀ (a : List α), mid ++ [back] = a ++ g :: t → ∃ t', g :: t = t' ++ [back] := by
    intro a ha
    rcases List.eq_nil_or_concat t with rfl | ⟨t', b, rfl⟩
    · obtain ⟨-, e⟩ := List.append_inj' ha rfl
      exact ⟨[], e.symm⟩
    · have ha' : mid ++ [back] = (a ++ g :: t') ++ [b] := by simpa using ha
      obtain ⟨-, e⟩ := List.append_inj' ha' rfl
      exact ⟨g :: t', by simpa using e.symm⟩
  cases l with
  | nil =>
    obtain ⟨rfl, h'⟩ := List.cons_eq_cons.mp h
    exact ⟨x :: mid, by rw [List.nil_append, ← h']; rfl⟩
  | cons a l =>
    obtain ⟨rfl, h⟩ := List.cons_eq_cons.mp h
    obtain ⟨t', ht⟩ := hlast (l ++ [f]) (by simpa using h)
    exact ⟨l ++ f :: x :: t', by simp [ht]⟩

theorem insert (hp : 0 < ps) {l t : List TocFile} {f x g : TocFile} (L : Laid ps pc n (l ++ f :: g :: t))
    (hx : 0 < x.capacity ∧ ps ∣ x.capacity ∧ x.length ≤ x.capacity) (hfx : f.stop ps ≤ x.pageIdx)
    (hxg : x.stop ps ≤ g.pageIdx) : Laid ps pc n (l ++ f :: x :: g :: t) := by
  obtain ⟨front, mid, back, he, hfr, hbk, -⟩ := L.between
  have hf := pages_pos hp (L.sized f (by simp))
  have hxx := pages_pos hp hx
  have hs := L.sorted
  have hd := L.disjoint
  simp only [List.pairwise_append, List.pairwise_cons, List.mem_cons] at hs hd
  obtain ⟨hs1, ⟨hs2, hs3, hs4⟩, hs5⟩ := hs
  obtain ⟨hd1, ⟨hd2, hd3, hd4⟩, hd5⟩ := hd
  have hsorted : (l ++ f :: x :: g :: t).Pairwise fun a b => a.pageIdx < b.pageIdx := by
    simp only [List.pairwise_append, List.pairwise_cons, List.mem_cons]
    refine ⟨hs1, ⟨?_, ?_, hs3, hs4⟩, ?_⟩
    · rintro b (rfl | hb)
      · lia
      · exact hs2 b hb
    · rintro b (rfl | hb)
      · lia
      · have := hs3 b hb
        lia
    · rintro a ha b (rfl | rfl | hb)
      · exact hs5 a ha _ (.inl rfl)
      · have := hs5 a ha f (.inl rfl)
        lia
      · exact hs5 a ha b (.inr hb)
  have hdisjoint : (l ++ f :: x :: g :: t).Pairwise fun a b => a.stop ps ≤ b.pageIdx := by
    simp only [List.pairwise_append, List.pairwise_cons, List.mem_cons]
    refine ⟨hd1, ⟨?_, ?_, hd3, hd4⟩, ?_⟩
    · rintro b (rfl | hb)
      · exact hfx
      · exact hd2 b hb
    · rintro b (rfl | hb)
      · exact hxg
      · have := hs3 b hb
        lia
    · rintro a ha b (rfl | rfl | hb)
      · exact hd5 a ha _ (.inl rfl)
      · have := hd5 a ha f (.inl rfl)
        lia
      · exact hd5 a ha b (.inr hb)
  have hsized : ∀ b ∈ l ++ f :: x :: g :: t, 0 < b.capacity ∧ ps ∣ b.capacity ∧ b.length ≤ b.capacity := by
    intro b hb
    by_cases e : b = x
    · exact e ▸ hx
    · exact L.sized b (by simp at hb ⊢; tauto)
  obtain ⟨mid', hm⟩ := ends_insert (x := x) he.symm
  rw [hm] at hsorted hdisjoint hsized ⊢
  exact of_ends hsorted hdisjoint hsized hfr hbk

/-- an entry with neighbours on both sides lies between the tables -/
theorem inner {l t : List TocFile} {f x g : TocFile} (L : Laid ps pc n (l ++ f :: x :: g :: t)) :
    tocPageCount ps n ≤ x.pageIdx ∧ x.stop ps + tocPageCount ps n ≤ pc := by
  obtain ⟨front, mid, back, he, -, -, hm⟩ := L.between
  have hs := L.sorted
  simp only [List.pairwise_append, List.pairwise_cons, List.mem_cons] at hs
  have hfx : f.pageIdx < x.pageIdx := hs.2.1.1 x (.inl rfl)
  have hxg : x.pageIdx < g.pageIdx := hs.2.1.2.1 g (.inl rfl)
  have hs' := L.sorted
  rw [he] at hs'
  have hfront := (List.pairwise_cons.mp hs').1
  have hback := (List.pairwise_append.mp (List.pairwise_cons.mp hs').2).2.2
  have hmem : ∀ a ∈ l ++ f :: x :: g :: t, a = front ∨ a ∈ mid ∨ a = back := by
    intro a ha
    rw [he] at ha
    simpa using ha
  rcases hmem x (by simp) with rfl | hx | rfl
  · -- the first entry is before all others
    rcases hmem f (by simp) with rfl | hf | rfl
    · lia
    · have := hfront f (List.mem_append_left _ hf)
      lia
    · have := hfront f (List.mem_append_right _ (.head []))
      lia
  · exact hm x hx
  · rcases hmem g (by simp) with rfl | hg | rfl
    · have := hfront x (List.mem_append_right _ (.head []))
      lia
    · have := hback g hg x (.head [])
      lia
    · lia

/-- there is room for both tables -/
theorem tables_le (L : Laid ps pc n files) : 2 * tocPageCount ps n ≤ pc := by
  obtain ⟨front, mid, back, rfl, hf, hb, -⟩ := L.between
  have h := (List.pairwise_cons.mp L.disjoint).1 back (by simp)
  lia

/-! ## files taken away, and lengths changed -/

/-- the ends and some of the files between them -/
theorem keep {front back : TocFile} {mid mid' : List TocFile} (L : Laid ps pc n (front :: (mid ++ [back])))
    (h : mid'.Sublist mid) : Laid ps pc n (front :: (mid' ++ [back])) := by
  have hsub : (front :: (mid' ++ [back])).Sublist (front :: (mid ++ [back])) := (h.append_right [back]).cons_cons front
  obtain ⟨a, m, b, he, ha, hb, -⟩ := L.between
  obtain ⟨rfl, hrest⟩ := List.cons_eq_cons.mp he
  obtain ⟨-, hlast⟩ := List.append_inj' hrest rfl
  obtain rfl := List.singleton_inj.mp hlast
  exact of_ends (L.sorted.sublist hsub) (L.disjoint.sublist hsub) (fun f hf => L.sized f (hsub.subset hf)) ha hb

/-- only the places and the capacities matter, and that the lengths are not greater -/
theorem relength {α : Type} {m m' : α → TocFile} {l : List α} (L : Laid ps pc n (l.map m))
    (h : ∀ f ∈ l, (m' f).pageIdx = (m f).pageIdx ∧ (m' f).capacity = (m f).capacity ∧
      (m' f).length ≤ (m f).capacity) : Laid ps pc n (l.map m') := by
  have hstop : ∀ f ∈ l, (m' f).stop ps = (m f).stop ps := by
    intro f hf
    rw [TocFile.stop, TocFile.stop, (h f hf).1, (h f hf).2.1]
  have hs : (l.map m').Pairwise fun a b => a.pageIdx < b.pageIdx := by
    rw [List.pairwise_map]
    apply (List.pairwise_map.mp L.sorted).imp_of_mem
    intro a b ha hb hab
    rw [(h a ha).1, (h b hb).1]
    exact hab
  have hd : (l.map m').Pairwise fun a b => a.stop ps ≤ b.pageIdx := by
    rw [List.pairwise_map]
    apply (List.pairwise_map.mp L.disjoint).imp_of_mem
    intro a b ha hb hab
    rw [hstop a ha, (h b hb).1]
    exact hab
  have hz : ∀ f ∈ l.map m', 0 < f.capacity ∧ ps ∣ f.capacity ∧ f.length ≤ f.capacity := by
    intro f hf
    obtain ⟨a, ha, rfl⟩ := List.mem_map.mp hf
    have h0 := L.sized (m a) (List.mem_map_of_mem ha)
    rw [(h a ha).2.1]
    exact ⟨h0.1, h0.2.1, (h a ha).2.2⟩
  obtain ⟨front, mid, back, he, hf, hb, -⟩ := L.between
  obtain ⟨front, l, rfl, rfl, h2⟩ := List.map_eq_cons_iff.mp he
  obtain ⟨mid, r, rfl, -, h4⟩ := List.map_eq_append_iff.mp h2
  obtain ⟨back, rfl, rfl⟩ := List.map_eq_singleton_iff.mp h4
  rw [List.map_cons, List.map_append, List.map_singleton] at hs hd hz ⊢
  apply of_ends hs hd hz
  · rw [hstop front (by simp)]
    exact hf
  · rw [(h back (by simp)).1]
    exact hb

end Laid

/-! ## the search for a gap -/

theorem shift_pages {k : Nat} (c : Nat) : c >>> log2Uint (2 ^ k) = c / 2 ^ k := by
  rw [log2Uint_two_pow, Nat.shiftRight_eq_div_pow]

/-- **The gap found** is a gap between neighbours, large enough. -/
theorem findOpenRun_spec {k pc n c : Nat} (hpc : pc < 2 ^ 32) : ∀ (pre l : List TocFile),
    Laid (2 ^ k) pc n (pre ++ l) → findOpenRun (2 ^ k) c l ≠ NO_OPEN_RUNS →
    ∃ m f g t, l = m ++ f :: g :: t ∧ findOpenRun (2 ^ k) c l = f.stop (2 ^ k) ∧
      c ≤ (g.pageIdx - f.stop (2 ^ k)) * 2 ^ k := by
  intro pre l
  induction l generalizing pre with
  | nil =>
    intro _ h
    exact absurd rfl h
  | cons f l ih =>
    cases l with
    | nil =>
      intro _ h
      exact absurd rfl h
    | cons g t =>
      intro L h
      have hd := L.disjoint
      simp only [List.pairwise_append, List.pairwise_cons] at hd
      have hfg : f.stop (2 ^ k) ≤ g.pageIdx := hd.2.1.1 g (.head t)
      have hg : g.pageIdx ≤ pc := L.pageIdx_le (by simp)
      have hend : add32 f.pageIdx (f.capacity >>> log2Uint (2 ^ k)) = f.stop (2 ^ k) := by
        rw [shift_pages]
        exact add32_of_lt (show f.stop (2 ^ k) < 2 ^ 32 by omega)
      have hav : sub32 g.pageIdx (f.stop (2 ^ k)) = g.pageIdx - f.stop (2 ^ k) := sub32_of_le (by omega) hfg
      rw [findOpenRun, hend, hav] at h ⊢
      by_cases hfit : (g.pageIdx - f.stop (2 ^ k)) * 2 ^ k % 2 ^ 32 ≥ c
      · rw [if_pos hfit] at h ⊢
        exact ⟨[], f, g, t, rfl, rfl, Nat.le_trans hfit (Nat.mod_le _ _)⟩
      · rw [if_neg hfit] at h ⊢
        obtain ⟨m, a, b, r, hl, hr, hle⟩ := ih (pre ++ [f]) (by simpa using L) h
        exact ⟨f :: m, a, b, r, by rw [hl]; rfl, hr, hle⟩

theorem addAscending_spec {l t : List SpifsFile} {f x g : SpifsFile}
    (hl : ∀ a ∈ l, a.metadata.pageIdx ≤ x.metadata.pageIdx) (hf : f.metadata.pageIdx ≤ x.metadata.pageIdx)
    (hg : x.metadata.pageIdx < g.metadata.pageIdx) :
    spifsAddAscending x (l ++ f :: g :: t) = l ++ f :: x :: g :: t := by
  induction l with
  | nil =>
    show spifsAddAscending x (f :: g :: t) = _
    rw [spifsAddAscending, if_neg (Nat.not_lt.mpr hf), spifsAddAscending, if_pos hg]
    rfl
  | cons a l ih =>
    show spifsAddAscending x (a :: (l ++ f :: g :: t)) = _
    rw [spifsAddAscending, if_neg (Nat.not_lt.mpr (hl a (.head l))), ih fun b hb => hl b (.tail a hb)]
    rfl

/-! ## mounting -/

theorem getDevicePageInfo_spec {dev : Bio.Bdev} {ps pc : Nat} (h : getDevicePageInfo dev = .ok (ps, pc)) :
    (∃ k < 32, ps = 2 ^ k) ∧ pc < 2 ^ 32 := by
  unfold getDevicePageInfo at h
  split at h
  · obtain ⟨rfl, rfl⟩ := Prod.mk.inj (Except.ok.inj h)
    refine ⟨⟨dev.blockShift, dev.shift_lt, ?_⟩, Nat.mod_lt _ (by decide)⟩
    rw [dev.blockSize_eq]
    exact Nat.mod_eq_of_lt (Nat.pow_lt_pow_right (by decide) dev.shift_lt)
  · dsimp only at h
    split at h
    · cases h
    · obtain ⟨rfl, rfl⟩ := Prod.mk.inj (Except.ok.inj h)
      exact ⟨⟨_, Nat.mod_lt _ (by decide), rfl⟩, Nat.mod_lt _ (by decide)⟩
  · cases h

/-- what the calls rely on -/
structure SpifsOk (s : Spifs) : Prop where
  page : ∃ k < 32, s.pageSize = 2 ^ k
  count_lt : s.pageCount < 2 ^ 32
  laid : Laid s.pageSize s.pageCount s.numEntries (s.files.map (·.metadata))
  room : s.files.length ≤ s.numEntries
  ptrs : (s.files.map (·.ptr)).Nodup
  fresh : ∀ f ∈ s.files, f.ptr < s.nextPtr

theorem mapIdx_metadata (l : List TocFile) : (l.mapIdx SpifsFile.mk).map (·.metadata) = l := by
  apply List.ext_getElem
  · simp
  · intro i h1 h2
    simp

theorem mapIdx_ptr (l : List TocFile) : (l.mapIdx SpifsFile.mk).map (·.ptr) = List.range l.length := by
  apply List.ext_getElem
  · simp
  · intro i h1 h2
    simp

/-- what a mount has in memory -/
theorem mount_eq {dev : Bio.Bdev} {generation : Nat} {pos : TocPosition} {table : List TocFile} {s : Spifs}
    (h : spifsMountTable dev generation pos table = .ok s) : ∃ ps pc, getDevicePageInfo dev = .ok (ps, pc) ∧
      consistencyCheck ps (table.filter fun e => e.capacity ≠ 0) = true ∧
      s = ⟨ps, pc, generation, table.length, pos, (table.filter fun e => e.capacity ≠ 0).mapIdx SpifsFile.mk,
        (table.filter fun e => e.capacity ≠ 0).length⟩ := by
  unfold spifsMountTable at h
  split at h
  · cases h
  · rename_i ps pc hinfo
    dsimp only at h
    split at h
    · rename_i hc
      exact ⟨ps, pc, hinfo, hc, (Except.ok.inj h).symm⟩
    · cases h

theorem mount_ok {dev : Bio.Bdev} {generation : Nat} {pos : TocPosition} {table : List TocFile} {s : Spifs}
    (hl : ∀ ps pc, getDevicePageInfo dev = .ok (ps, pc) → consistencyCheck ps (table.filter fun e => e.capacity ≠ 0) →
      Laid ps pc table.length (table.filter fun e => e.capacity ≠ 0))
    (h : spifsMountTable dev generation pos table = .ok s) : SpifsOk s := by
  obtain ⟨ps, pc, hinfo, hc, rfl⟩ := mount_eq h
  obtain ⟨hp, hlt⟩ := getDevicePageInfo_spec hinfo
  refine ⟨hp, hlt, ?_, ?_, ?_, ?_⟩
  · dsimp only
    rw [mapIdx_metadata]
    exact hl ps pc hinfo hc
  · dsimp only
    rw [List.length_mapIdx]
    exact List.length_filter_le _ _
  · dsimp only
    rw [mapIdx_ptr]
    exact List.nodup_range
  · intro f hf
    have hm : f.ptr ∈ List.range (table.filter fun e => e.capacity ≠ 0).length := by
      rw [← mapIdx_ptr]
      exact List.mem_map_of_mem hf
    exact List.mem_range.mp hm

theorem formatFiles_eq (ps pc tocPages : Nat) : (formatFiles ps pc tocPages).map (·.metadata) =
    [⟨0, tocPages * ps % 2 ^ 32, tocPages * ps % 2 ^ 32, padName frontTocLabel⟩,
      ⟨sub32 pc tocPages, tocPages * ps % 2 ^ 32, tocPages * ps % 2 ^ 32, padName backTocLabel⟩] := by
  unfold formatFiles
  simp only [spifsAddAscending]
  rw [if_neg (Nat.not_lt_zero _)]
  rfl

/-- the slots of a commit without the empty ones -/
theorem tocSlots_filter {n : Nat} {files : List TocFile} (hl : files.length ≤ n) (hc : ∀ f ∈ files, 0 < f.capacity) :
    (tocSlots n files).filter (fun e => e.capacity ≠ 0) = files := by
  have h1 : files.filter (fun e => decide (e.capacity ≠ 0)) = files := by
    rw [List.filter_eq_self]
    intro f hf
    exact decide_eq_true (hc f hf).ne'
  have h2 : ∀ m, (List.replicate m (⟨0, 0, 0, List.replicate MAX_FILENAME_LENGTH 0⟩ : TocFile)).filter
      (fun e => decide (e.capacity ≠ 0)) = [] := by
    intro m
    rw [List.filter_eq_nil_iff]
    intro f hf
    rw [List.eq_of_mem_replicate hf]
    decide
  rw [tocSlots, List.take_of_length_le hl, List.filter_append, h1, h2, List.append_nil]

theorem tocSlots_length {n : Nat} {files : List TocFile} (hl : files.length ≤ n) : (tocSlots n files).length = n := by
  rw [tocSlots, List.length_append, List.length_replicate, List.take_of_length_le hl]
  omega

/-- **What a format whose tables do not wrap writes**: two entries of `tocPages` pages, at the ends of the device. -/
theorem format_spec {dev : Bio.Bdev} {tocPages : Nat} {commit : Bool} {table : List TocFile} {ps pc : Nat}
    (hinfo : getDevicePageInfo dev = .ok (ps, pc)) (hfit : tocPages * ps < 2 ^ 32)
    (h : spifsFormat dev tocPages commit = .ok table) : SPIFS_ENTRY_LENGTH ∣ ps ∧ 0 < tocPages ∧ tocPages ≤ pc ∧
      ∃ n, 2 ≤ n ∧ n + 2 = tocPages * (ps / SPIFS_ENTRY_LENGTH) ∧ n < 2 ^ 32 ∧ tocPageCount ps n = tocPages ∧
        table = tocSlots n [⟨0, tocPages * ps, tocPages * ps, padName frontTocLabel⟩,
          ⟨pc - tocPages, tocPages * ps, tocPages * ps, padName backTocLabel⟩] := by
  obtain ⟨⟨k, hk, hps⟩, hpc⟩ := getDevicePageInfo_spec hinfo
  have hpos : 0 < ps := hps ▸ Nat.two_pow_pos k
  rw [spifsFormat, hinfo] at h
  dsimp only at h
  split at h
  · cases h
  rename_i h32
  split at h
  · cases h
  split at h
  · cases h
  rename_i h4
  split at h
  · cases h
  rename_i hcount
  have h32' : SPIFS_ENTRY_LENGTH ∣ ps := Nat.dvd_of_mod_eq_zero (not_not.mp h32)
  obtain ⟨e, rfl⟩ := h32'
  have he : SPIFS_ENTRY_LENGTH * e / SPIFS_ENTRY_LENGTH = e := Nat.mul_div_cancel_left e (by decide)
  have hle : tocPages * e ≤ tocPages * (SPIFS_ENTRY_LENGTH * e) :=
    Nat.mul_le_mul_left _ (Nat.le_mul_of_pos_left e (by decide))
  have hn : tocPages * e % 2 ^ 32 = tocPages * e := Nat.mod_eq_of_lt (by lia)
  rw [he, hn] at h h4 hcount
  have hsub : sub32 (tocPages * e) 2 = tocPages * e - 2 := sub32_of_le (by lia) (by lia)
  have hT : tocPageCount (SPIFS_ENTRY_LENGTH * e) (tocPages * e - 2) = tocPages := by
    have h2 : tocPages * e - 2 + 2 = tocPages * e := by lia
    rw [tocPageCount, h2, Nat.mul_assoc, Nat.mul_comm e]
    exact Nat.mul_div_cancel _ hpos
  rw [hsub, hT] at hcount
  have hTpc : tocPages ≤ pc := by lia
  have hTpos : 0 < tocPages := by
    rcases Nat.eq_zero_or_pos tocPages with rfl | h0
    · lia
    · exact h0
  have hsize : tocPages * (SPIFS_ENTRY_LENGTH * e) % 2 ^ 32 = tocPages * (SPIFS_ENTRY_LENGTH * e) := Nat.mod_eq_of_lt hfit
  have hidx : sub32 pc tocPages = pc - tocPages := sub32_of_le hpc hTpc
  have htab := (Except.ok.inj h).symm
  rw [formatFiles_eq, hsize, hidx, hsub] at htab
  refine ⟨Nat.dvd_mul_right _ _, hTpos, hTpc, tocPages * e - 2, by lia, ?_, by lia, hT, htab⟩
  rw [he]
  lia

/-- two tables that fit are laid out -/
theorem Laid.tables {ps pc n T : Nat} (hpos : 0 < ps) (hT : tocPageCount ps n = T) (hTpos : 0 < T) (hroom : 2 * T ≤ pc)
    (u v : List UInt8) : Laid ps pc n [⟨0, T * ps, T * ps, u⟩, ⟨pc - T, T * ps, T * ps, v⟩] := by
  have hdiv : T * ps / ps = T := Nat.mul_div_cancel _ hpos
  have hsized : 0 < T * ps ∧ ps ∣ T * ps ∧ T * ps ≤ T * ps :=
    ⟨Nat.mul_pos hTpos hpos, Nat.dvd_mul_left _ _, Nat.le_refl _⟩
  show Laid _ _ _ (_ :: (([] : List TocFile) ++ [_]))
  apply Laid.of_ends
  · simpa using show 0 < pc - T by lia
  · simpa [TocFile.stop, hdiv] using show T ≤ pc - T by lia
  · intro f hf
    rcases List.mem_cons.mp hf with rfl | hf
    · exact hsized
    · rw [List.mem_singleton.mp hf]
      exact hsized
  · rw [hT, TocFile.stop, hdiv]
    exact Nat.le_add_left _ _
  · rw [hT]
    show pc - T + T ≤ pc
    lia

/-- the files of a format, as a mount finds them -/
theorem format_ok {dev : Bio.Bdev} {tocPages : Nat} {commit : Bool} {table : List TocFile}
    (hfits : ∀ ps pc, getDevicePageInfo dev = .ok (ps, pc) → tocPages * ps < 2 ^ 32)
    (h : spifsFormat dev tocPages commit = .ok table) {ps pc : Nat} (hinfo : getDevicePageInfo dev = .ok (ps, pc))
    (hc : consistencyCheck ps (table.filter fun e => e.capacity ≠ 0)) :
    Laid ps pc table.length (table.filter fun e => e.capacity ≠ 0) := by
  obtain ⟨⟨k, hk, hps⟩, hpc⟩ := getDevicePageInfo_spec hinfo
  have hpos : 0 < ps := hps ▸ Nat.two_pow_pos k
  obtain ⟨-, hTpos, hTpc, n, hn, -, -, hT, rfl⟩ := format_spec hinfo (hfits ps pc hinfo) h
  have hlen : ∀ a b : TocFile, [a, b].length ≤ n := fun _ _ => show 2 ≤ n from hn
  have hcap : 0 < tocPages * ps := Nat.mul_pos hTpos hpos
  have hcaps : ∀ i j u v, ∀ f ∈ [(⟨i, tocPages * ps, tocPages * ps, u⟩ : TocFile),
      ⟨j, tocPages * ps, tocPages * ps, v⟩], 0 < f.capacity := by
    intro i j u v f hf
    rcases List.mem_cons.mp hf with rfl | hf
    · exact hcap
    · rw [List.mem_singleton.mp hf]
      exact hcap
  rw [tocSlots_filter (hlen _ _) (hcaps _ _ _ _)] at hc
  rw [tocSlots_filter (hlen _ _) (hcaps _ _ _ _), tocSlots_length (hlen _ _)]
  have hdiv : tocPages * ps / ps = tocPages := Nat.mul_div_cancel _ hpos
  -- the check of the mount keeps the tables apart
  have hapart : tocPages ≤ pc - tocPages := by
    have h0 : add32 0 tocPages = tocPages := by
      rw [add32_of_lt (by lia), Nat.zero_add]
    have h1 : sub32 tocPages 1 = tocPages - 1 := sub32_of_le (by lia) hTpos
    rw [consistencyCheck, hdiv, h0, h1] at hc
    split at hc
    · cases hc
    · rename_i hgt
      have hgt' : ¬ pc - tocPages ≤ tocPages - 1 := hgt
      lia
  exact Laid.tables hpos hT hTpos (by lia) _ _

/-! ## the calls -/

/-- the pages of a new file -/
theorem roundupPage_spec {ps len : Nat} (hp : 0 < ps) (hl : 0 < len) (hfit : len ≤ 2 ^ 32 - ps)
    (hps : ps < 2 ^ 32) : 0 < roundupPage len ps ∧ ps ∣ roundupPage len ps ∧ len ≤ roundupPage len ps := by
  have hmod : (len + (ps - 1)) % 2 ^ 32 = len + (ps - 1) := Nat.mod_eq_of_lt (by omega)
  have h1 := Nat.div_add_mod (len + (ps - 1)) ps
  have h2 := Nat.mod_lt (len + (ps - 1)) hp
  rw [Nat.mul_comm] at h1
  rw [roundupPage, hmod]
  refine ⟨?_, Nat.dvd_mul_left _ _, ?_⟩
  · omega
  · omega

namespace SpifsOk
variable {s : Spifs}

/-- the files between the tables -/
theorem split (I : SpifsOk s) : ∃ front mid back, s.files = front :: (mid ++ [back]) := by
  obtain ⟨a, m, b, h, -⟩ := I.laid.between
  obtain ⟨front, l, h1, -, h2⟩ := List.map_eq_cons_iff.mp h
  obtain ⟨mid, r, h3, -, h4⟩ := List.map_eq_append_iff.mp h2
  obtain ⟨back, h5, -⟩ := List.map_eq_singleton_iff.mp h4
  exact ⟨front, mid, back, by rw [h1, h3, h5]⟩

theorem eq_of_ptr (I : SpifsOk s) {f g : SpifsFile} (hf : f ∈ s.files) (hg : g ∈ s.files) (h : f.ptr = g.ptr) : f = g :=
  List.inj_on_of_nodup_map I.ptrs hf hg h

theorem afterCommit (I : SpifsOk s) (commit : Bool) : SpifsOk (afterCommit s commit) := by
  unfold LkHv.afterCommit
  split
  · exact ⟨I.page, I.count_lt, I.laid, I.room, I.ptrs, I.fresh⟩
  · exact I

/-- a file between the tables deleted -/
theorem dropFile (I : SpifsOk s) {file : SpifsFile} (h : file ∈ (s.files.drop 1).dropLast) :
    SpifsOk (dropFile s file.ptr) := by
  obtain ⟨front, mid, back, hs⟩ := I.split
  have hm : file ∈ mid := by
    rw [hs] at h
    simpa using h
  have hp := I.ptrs
  rw [hs, List.map_cons, List.map_append, List.nodup_cons, List.nodup_append] at hp
  obtain ⟨hp1, -, -, hp2⟩ := hp
  have hfront : front.ptr ≠ file.ptr := by
    intro e
    exact hp1 (e ▸ List.mem_append_left _ (List.mem_map_of_mem hm))
  have hback : back.ptr ≠ file.ptr := by
    intro e
    exact hp2 file.ptr (List.mem_map_of_mem hm) back.ptr (by simp) e.symm
  have hsub : (s.files.filter (·.ptr ≠ file.ptr)).Sublist s.files := List.filter_sublist
  have hkeep : s.files.filter (·.ptr ≠ file.ptr) = front :: (mid.filter (·.ptr ≠ file.ptr) ++ [back]) := by
    rw [hs, List.filter_cons_of_pos (by simpa using hfront), List.filter_append, List.filter_cons_of_pos
      (by simpa using hback), List.filter_nil]
  refine ⟨I.page, I.count_lt, ?_, Nat.le_trans hsub.length_le I.room, I.ptrs.sublist (hsub.map _),
    fun f hf => I.fresh f (hsub.subset hf)⟩
  show Laid _ _ _ ((s.files.filter (·.ptr ≠ file.ptr)).map (·.metadata))
  have L := I.laid
  rw [hs, List.map_cons, List.map_append, List.map_singleton] at L
  rw [hkeep, List.map_cons, List.map_append, List.map_singleton]
  exact L.keep (List.filter_sublist.map _)

/-- a length written that the capacity allows -/
theorem setLength (I : SpifsOk s) {file : SpifsFile} (h : file ∈ s.files) {len : Nat} (hl : len ≤ file.metadata.capacity) :
    SpifsOk (setLength s file.ptr len) := by
  have hptr : ((LkHv.setLength s file.ptr len).files.map (·.ptr)) = s.files.map (·.ptr) := by
    show (List.map _ (List.map _ _)) = _
    rw [List.map_map]
    apply List.map_congr_left
    intro f _
    show (if f.ptr = file.ptr then _ else f : SpifsFile).ptr = f.ptr
    split <;> rfl
  refine ⟨I.page, I.count_lt, ?_, ?_, ?_, ?_⟩
  · show Laid _ _ _ ((s.files.map fun f => if f.ptr = file.ptr then _ else f).map (·.metadata))
    rw [List.map_map]
    apply I.laid.relength
    intro f hf
    have hz := I.laid.sized f.metadata (List.mem_map_of_mem hf)
    by_cases e : f.ptr = file.ptr
    · obtain rfl := I.eq_of_ptr hf h e
      simp only [Function.comp, if_pos]
      exact ⟨trivial, trivial, hl⟩
    · simp only [Function.comp, if_neg e]
      exact ⟨trivial, trivial, hz.2.2⟩
  · show (List.map _ s.files).length ≤ s.numEntries
    rw [List.length_map]
    exact I.room
  · rw [hptr]
    exact I.ptrs
  · intro f hf
    obtain ⟨a, ha, rfl⟩ := List.mem_map.mp hf
    have := I.fresh a ha
    show (if a.ptr = file.ptr then _ else a : SpifsFile).ptr < s.nextPtr
    split <;> exact this

/-- **The entry made for a new file** goes into a gap between neighbours. -/
theorem createEntry (I : SpifsOk s) {name : List UInt8} {len : Nat} {md : TocFile} (hfit : len ≤ 2 ^ 32 - s.pageSize)
    (h : createEntry s name len = .ok md) :
    s.files.length < s.numEntries ∧ (0 < md.capacity ∧ s.pageSize ∣ md.capacity ∧ md.length ≤ md.capacity) ∧
    ∃ l f g t, s.files = l ++ f :: g :: t ∧ f.metadata.stop s.pageSize = md.pageIdx ∧
      md.stop s.pageSize ≤ g.metadata.pageIdx := by
  obtain ⟨k, hk, hps⟩ := I.page
  have hpos : 0 < s.pageSize := hps ▸ Nat.two_pow_pos k
  have hlt : s.pageSize < 2 ^ 32 := hps ▸ Nat.pow_lt_pow_right (by decide) hk
  unfold LkHv.createEntry at h
  split at h
  · cases h
  split at h
  · cases h
  split at h
  · cases h
  split at h
  · cases h
  split at h
  · cases h
  rename_i hroom
  have hcap : ∃ capacity, (if len = 0 then s.pageSize else roundupPage len s.pageSize) = capacity ∧ 0 < capacity ∧
      s.pageSize ∣ capacity ∧ len ≤ capacity := by
    by_cases h0 : len = 0
    · exact ⟨s.pageSize, if_pos h0, hpos, Nat.dvd_refl _, h0 ▸ Nat.zero_le _⟩
    · exact ⟨_, if_neg h0, roundupPage_spec hpos (Nat.pos_of_ne_zero h0) hfit hlt⟩
  obtain ⟨capacity, he, hc⟩ := hcap
  rw [he] at h
  dsimp only at h
  split at h
  · cases h
  rename_i hrun
  obtain rfl := Except.ok.inj h
  refine ⟨Nat.lt_of_not_le hroom, hc, ?_⟩
  have L := I.laid
  rw [hps] at L hrun
  obtain ⟨l, f, g, t, hl, hf, hle⟩ := findOpenRun_spec I.count_lt [] _ L hrun
  have hfg : f.stop (2 ^ k) ≤ g.pageIdx := by
    have hd := L.disjoint
    rw [hl] at hd
    exact (List.pairwise_cons.mp (List.pairwise_append.mp hd).2.1).1 g (.head t)
  obtain ⟨l', r, h1, rfl, h2⟩ := List.map_eq_append_iff.mp hl
  obtain ⟨f', r', rfl, rfl, h3⟩ := List.map_eq_cons_iff.mp h2
  obtain ⟨g', t', rfl, rfl, rfl⟩ := List.map_eq_cons_iff.mp h3
  refine ⟨l', f', g', t', h1, ?_, ?_⟩
  · rw [hps, hf]
  · have hdiv : capacity / 2 ^ k ≤ g'.metadata.pageIdx - f'.metadata.stop (2 ^ k) :=
      Nat.div_le_of_le_mul (by rw [Nat.mul_comm]; exact hle)
    rw [TocFile.stop, hps, hf]
    dsimp only
    omega

theorem create (I : SpifsOk s) {name : List UInt8} {len : Nat} (mem erase commit : Bool)
    (hfit : len ≤ 2 ^ 32 - s.pageSize) : SpifsOk (spifsCreate s name len mem erase commit).1 := by
  obtain ⟨k, hk, hps⟩ := I.page
  have hpos : 0 < s.pageSize := hps ▸ Nat.two_pow_pos k
  unfold spifsCreate
  split
  · exact I
  rename_i md hmd
  split
  · exact I
  split
  · exact I
  obtain ⟨hroom, hmdz, l, f, g, t, hs, hf, hg⟩ := I.createEntry hfit hmd
  have L := I.laid
  rw [hs, List.map_append, List.map_cons, List.map_cons] at L
  have hfp := Laid.pages_pos hpos (L.sized f.metadata (by simp))
  have hmp := Laid.pages_pos hpos hmdz
  have hsorted := (List.pairwise_append.mp L.sorted).2.2
  have hadd : spifsAddAscending ⟨s.nextPtr, md⟩ s.files = l ++ f :: ⟨s.nextPtr, md⟩ :: g :: t := by
    rw [hs]
    apply addAscending_spec
    · intro a ha
      have := hsorted a.metadata (List.mem_map_of_mem ha) f.metadata (.head _)
      show a.metadata.pageIdx ≤ md.pageIdx
      lia
    · show f.metadata.pageIdx ≤ md.pageIdx
      lia
    · show md.pageIdx < g.metadata.pageIdx
      lia
  have hfresh := I.fresh
  rw [hs] at hfresh
  dsimp only
  rw [hadd]
  split
  · show SpifsOk (LkHv.afterCommit _ true)
    refine SpifsOk.afterCommit ?_ true
    refine ⟨I.page, I.count_lt, ?_, ?_, ?_, ?_⟩
    · show Laid _ _ _ ((l ++ f :: ⟨s.nextPtr, md⟩ :: g :: t).map (·.metadata))
      rw [List.map_append, List.map_cons, List.map_cons, List.map_cons]
      exact L.insert hpos hmdz (Nat.le_of_eq hf) hg
    · have hlen : s.files.length = (l ++ f :: g :: t).length := congrArg _ hs
      show (l ++ f :: ⟨s.nextPtr, md⟩ :: g :: t).length ≤ s.numEntries
      simp only [List.length_append, List.length_cons] at hlen ⊢
      lia
    · have hp := I.ptrs
      rw [hs] at hp
      show ((l ++ f :: ⟨s.nextPtr, md⟩ :: g :: t).map (·.ptr)).Nodup
      have hperm : (l ++ f :: ⟨s.nextPtr, md⟩ :: g :: t).Perm (⟨s.nextPtr, md⟩ :: (l ++ f :: g :: t)) := by
        have h : (l ++ [f] ++ ⟨s.nextPtr, md⟩ :: g :: t).Perm (⟨s.nextPtr, md⟩ :: (l ++ [f] ++ g :: t)) :=
          List.perm_middle
        simpa using h
      rw [(hperm.map _).nodup_iff, List.map_cons, List.nodup_cons]
      refine ⟨?_, hp⟩
      intro hm
      obtain ⟨a, ha, he⟩ := List.mem_map.mp hm
      have := hfresh a ha
      dsimp only at he
      lia
    · intro a ha
      show a.ptr < s.nextPtr + 1
      have ha' : a = ⟨s.nextPtr, md⟩ ∨ a ∈ l ++ f :: g :: t := by
        simp only [List.mem_append, List.mem_cons] at ha ⊢
        tauto
      rcases ha' with rfl | ha'
      · exact Nat.lt_succ_self _
      · exact Nat.lt_succ_of_lt (hfresh a ha')
  · -- the file is taken off again
    have hold : (l ++ f :: ⟨s.nextPtr, md⟩ :: g :: t).filter (·.ptr ≠ s.nextPtr) = s.files := by
      have hother : (l ++ f :: g :: t).filter (·.ptr ≠ s.nextPtr) = l ++ f :: g :: t := by
        rw [List.filter_eq_self]
        intro a ha
        exact decide_eq_true (hfresh a ha).ne
      rw [List.filter_append] at hother
      have hfp : f.ptr ≠ s.nextPtr := (hfresh f (by simp)).ne
      rw [List.filter_cons_of_pos (by simpa using hfp)] at hother
      rw [hs, List.filter_append, List.filter_cons_of_pos (by simpa using hfp), List.filter_cons_of_neg (by simp)]
      exact hother
    have hd : LkHv.dropFile { s with files := l ++ f :: ⟨s.nextPtr, md⟩ :: g :: t, nextPtr := s.nextPtr + 1 } s.nextPtr =
        { s with nextPtr := s.nextPtr + 1 } := by
      unfold LkHv.dropFile
      dsimp only
      rw [hold]
    show SpifsOk (LkHv.dropFile _ _)
    rw [hd]
    exact ⟨I.page, I.count_lt, I.laid, I.room, I.ptrs, fun a ha => Nat.lt_succ_of_lt (I.fresh a ha)⟩

theorem remove (I : SpifsOk s) (name : List UInt8) (commit : Bool) : SpifsOk (spifsRemove s name commit).1 := by
  unfold spifsRemove
  split
  · exact I
  · rename_i file hf
    exact (I.dropFile (List.mem_of_find?_eq_some hf)).afterCommit commit

theorem write (I : SpifsOk s) {file : SpifsFile} (hf : file ∈ s.files) (off : Int) (size : Nat) (pages commit : Bool) :
    SpifsOk (spifsWrite s file off size pages commit).1 := by
  unfold spifsWrite
  split
  · exact I
  dsimp only
  split
  · exact I
  rename_i hstop
  by_cases hd : add64 off.toNat size > file.metadata.length
  · have h1 := I.setLength hf (Nat.le_of_not_lt hstop)
    rw [if_pos hd, if_pos hd]
    split
    · exact h1
    · exact h1.afterCommit commit
  · rw [if_neg hd, if_neg hd]
    split
    · exact I
    · exact I

theorem truncate (I : SpifsOk s) {file : SpifsFile} (hf : file ∈ s.files) (len : Nat) (commit : Bool) :
    SpifsOk (spifsTruncate s file len commit).1 := by
  unfold spifsTruncate
  split
  · exact I
  · rename_i hl
    have hz := I.laid.sized file.metadata (List.mem_map_of_mem hf)
    exact (I.setLength hf (by omega)).afterCommit commit

end SpifsOk

/-- the sizes do not wrap, and a table that is mounted was laid out: the entries that are not empty -/
def SpifsOp.Fits : Option Spifs → SpifsOp → Prop
  | none, .mount dev _ _ table => ∀ ps pc, getDevicePageInfo dev = .ok (ps, pc) →
      Laid ps pc table.length (table.filter fun e => e.capacity ≠ 0)
  | none, .format dev tocPages _ => ∀ ps pc, getDevicePageInfo dev = .ok (ps, pc) → tocPages * ps < 2 ^ 32
  | some s, .create _ len _ _ _ => len ≤ 2 ^ 32 - s.pageSize
  | _, _ => True

/-- **Every call keeps the layout.** -/
theorem spifsStep_ok {s s' : Option Spifs} {op : SpifsOp} (I : ∀ t, s = some t → SpifsOk t) (hg : op.Fits s)
    (h : spifsStep s op = some s') : ∀ t, s' = some t → SpifsOk t := by
  intro t ht
  subst ht
  cases s with
  | none =>
    cases op with
    | mount dev generation pos table =>
      have hm := Option.some.inj h
      unfold mounted at hm
      split at hm
      · rename_i s1 hs1
        obtain rfl := Option.some.inj hm
        exact mount_ok (fun ps pc hinfo _ => hg ps pc hinfo) hs1
      · cases hm
    | format dev tocPages commit =>
      rw [spifsStep] at h
      split at h
      · rename_i table htable
        have hm := Option.some.inj h
        unfold mounted at hm
        split at hm
        · rename_i s1 hs1
          obtain rfl := Option.some.inj hm
          exact mount_ok (fun ps pc hinfo hc => format_ok hg htable hinfo hc) hs1
        · cases hm
      · cases h
    | unmount | create | «open» | close | remove | write | truncate => cases h
  | some s =>
    have J : SpifsOk s := I s rfl
    cases op with
    | mount | format => cases h
    | unmount => cases h
    | create name len mem erase commit =>
      obtain rfl := Option.some.inj (Option.some.inj h)
      exact J.create mem erase commit hg
    | «open» name =>
      obtain rfl := Option.some.inj (Option.some.inj h)
      exact J
    | close handle =>
      rw [spifsStep] at h
      split at h
      · obtain rfl := Option.some.inj (Option.some.inj h)
        exact J
      · cases h
    | remove name commit =>
      obtain rfl := Option.some.inj (Option.some.inj h)
      exact J.remove name commit
    | write handle off size pages commit =>
      obtain ⟨file, hf, he⟩ := Option.map_eq_some_iff.mp h
      obtain rfl := Option.some.inj he
      exact J.write (List.mem_of_find?_eq_some hf) off size pages commit
    | truncate handle len commit =>
      obtain ⟨file, hf, he⟩ := Option.map_eq_some_iff.mp h
      obtain rfl := Option.some.inj he
      exact J.truncate (List.mem_of_find?_eq_some hf) len commit

/-- **The layout of a SPIFS file system**: in every run in which the mounted tables are laid out and neither a
format nor a create has a size that wraps, the table in memory is laid out. -/
theorem laid_run {o : Option Spifs} (h : spifsSys.Run (fun s op => op.Fits s) o) {s : Spifs} (hs : o = some s) :
    Laid s.pageSize s.pageCount s.numEntries (s.files.map (·.metadata)) := by
  have hinv : ∀ t, o = some t → SpifsOk t := by
    apply h.invariant (I := fun o => ∀ t, o = some t → SpifsOk t)
    · rintro _ rfl t ht
      cases ht
    · intro s op s' I hg hst
      exact spifsStep_ok I hg hst
  exact (hinv s hs).laid

/-- a device of 64 blocks of 512 bytes -/
def smallDev : Bio.Bdev := plainDev 9 64 (by decide)

/-- the file system of `smallDev` after a format with tables of one page -/
def smallFs : Spifs where
  pageSize := 512
  pageCount := 64
  generation := 3
  numEntries := 14
  tocPosition := .front
  files := [⟨0, ⟨0, 512, 512, padName frontTocLabel⟩⟩, ⟨1, ⟨63, 512, 512, padName backTocLabel⟩⟩]
  nextPtr := 2

theorem smallFs_format : spifsStep none (.format smallDev 1 true) = some (some smallFs) := by
  decide

theorem laid_create : Laid 512 64 14
    ((spifsCreate smallFs [97] 1000 true true true).1.files.map (·.metadata)) := by
  have h1 : spifsSys.Run (fun s op => op.Fits s) (some smallFs) := by
    refine .step (.init rfl) ?_ smallFs_format
    intro ps pc hinfo
    obtain ⟨⟨k, hk, rfl⟩, -⟩ := getDevicePageInfo_spec hinfo
    rw [Nat.one_mul]
    exact Nat.pow_lt_pow_right (by decide) hk
  have h2 : spifsSys.Run (fun s op => op.Fits s) (some (spifsCreate smallFs [97] 1000 true true true).1) :=
    .step (a := .create [97] 1000 true true true) h1 (show 1000 ≤ 2 ^ 32 - 512 by decide) rfl
  exact laid_run h2 rfl

/-- a length whose pages wrap gives a file of no pages on top of another one -/
theorem not_laid : ¬ ∀ o, spifsSys.Reach o → ∀ s, o = some s →
    Laid s.pageSize s.pageCount s.numEntries (s.files.map (·.metadata)) := by
  intro hall
  have h1 : spifsSys.Reach (some smallFs) := .step (.init rfl) trivial smallFs_format
  obtain ⟨s, hs, hf⟩ : ∃ s, Machine.exec spifsStep (some smallFs)
      [.create [97] 1 true true true, .create [98] 0xFFFFFFFF true true true] = some (some s) ∧
      s.files.map (·.metadata.capacity) = [512, 512, 0, 512] := ⟨_, rfl, rfl⟩
  have hz := (hall _ (h1.exec _ hs) s rfl).sized
  have hm : 0 ∈ s.files.map (·.metadata.capacity) := by
    rw [hf]
    decide
  obtain ⟨f, hm, h0⟩ := List.mem_map.mp hm
  have := (hz f.metadata (List.mem_map_of_mem hm)).1
  omega

end LkHv
