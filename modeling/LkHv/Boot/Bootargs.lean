import LkHv.Libc.Str
import Mathlib.Data.List.GetD
import Mathlib.Order.Nat

/-!
# The boot arguments (`hv_boot.c`)

* `parseBootargs`      the source's, with the copies into `struct hv_bootarg`;
* `hvBootarg`          the struct behind them, by byte offsets;
* `parse_bootargs`     what the function does: it takes what is behind the first "root=", and no words;
* `parse_bootargs_words`   a later word becomes part of the name of the file system.
-/

namespace LkHv
namespace Boot
open Libc

def HV_BUFFER_MIN_LEN : Nat := 32

/-- "root=" -/
def rootKey : List Byte := [0x72, 0x6f, 0x6f, 0x74, 0x3d]

/-- ',' -/
def comma : Byte := 0x2c

/-- bytes that are stored one after the other, from an offset in `struct hv_bootarg` on -/
structure Copy where
  dst : Nat
  bytes : List Byte

/-- the offset of `bio` -/
def bioOffset : Nat := 0

/-- the offset of `fs` -/
def fsOffset : Nat := HV_BUFFER_MIN_LEN

/-- `parse_bootargs` -/
def parseBootargs (bootarg : List Byte) : Option (Int × List Copy) := do
  match ← strstr bootarg (rootKey ++ [0]) with
  | none => some (-1, [])
  | some i =>
    let tmp := bootarg.drop (i + 5)
    match ← strchr comma tmp with
    | none => some (-2, [])
    | some n =>
      let bio ← strncpy tmp n
      let fs ← strncpy (tmp.drop (n + 1)) (HV_BUFFER_MIN_LEN - 1)
      some (0, [⟨bioOffset, bio⟩, ⟨fsOffset, fs⟩])

/-- a string in a property of a device tree, whose length is an `int` -/
structure BootArg where
  str : List Byte
  nul : 0 ∉ str
  len : str.length < 2 ^ 31

/-- what may be read of it -/
def BootArg.block (a : BootArg) : List Byte := a.str ++ [0]

def storeCopy (ba : Nat → Byte) (c : Copy) : Nat → Byte :=
  fun o => if c.dst ≤ o ∧ o < c.dst + c.bytes.length then c.bytes.getD (o - c.dst) 0 else ba o

/-- the struct, which was cleared, behind the copies -/
def hvBootarg (copies : List Copy) : Nat → Byte := copies.foldl storeCopy fun _ => 0

/-- a buffer of the struct holds a string, and NULs behind it -/
def Buffer (ba : Nat → Byte) (offset : Nat) (s : List Byte) : Prop :=
  ∀ k < HV_BUFFER_MIN_LEN, ba (offset + k) = s.getD k 0

/-- the words of a string -/
def words (s : List Byte) : List (List Byte) := s.splitOn 0x20

/-- **The claim** for the word that the struct has room for: the copies stay in their buffers, and the buffers get the
two parts of its value, as far as they fit. -/
def SplitsWords (a : BootArg) : Prop :=
  ∃ ret copies, parseBootargs a.block = some (ret, copies) ∧ (∀ c ∈ copies, c.bytes.length ≤ HV_BUFFER_MIN_LEN) ∧
    ∀ bio fs, (words a.str).find? (fun w => rootKey.isPrefixOf w) = some (rootKey ++ bio ++ comma :: fs) →
      comma ∉ bio → Buffer (hvBootarg copies) bioOffset (bio.take (HV_BUFFER_MIN_LEN - 1)) ∧
        Buffer (hvBootarg copies) fsOffset (fs.take (HV_BUFFER_MIN_LEN - 1))

/-! ## the two copies -/

section
variable {s t : List Byte}

theorem getD_append_zeros (s : List Byte) (n k : Nat) : (s ++ List.replicate n 0).getD k 0 = s.getD k 0 := by
  by_cases h : k < s.length
  · rw [List.getD_append _ _ _ _ h]
  · have hs := not_lt.mp h
    rw [List.getD_append_right _ _ _ _ hs, List.getD_eq_default s 0 hs]
    by_cases hn : k - s.length < n
    · rw [List.getD_replicate _ hn]
    · rw [List.getD_eq_default _ 0 (by rw [List.length_replicate]; omega)]

/-- a copy that is bounded by one less than the buffer stays in it, and is what fits of the string -/
theorem strncpy_bounded (h : 0 ∉ s) : ∃ l, strncpy (s ++ [0]) (HV_BUFFER_MIN_LEN - 1) = some l ∧
    l.length ≤ HV_BUFFER_MIN_LEN ∧ ∀ k, l.getD k 0 = (s.take (HV_BUFFER_MIN_LEN - 1)).getD k 0 := by
  unfold HV_BUFFER_MIN_LEN
  by_cases hlen : s.length < 31
  · have hshort := strncpy_short h [] (30 - s.length)
    rw [show s.length + (30 - s.length + 1) = 31 by omega] at hshort
    refine ⟨_, hshort, ?_, fun k => ?_⟩
    · rw [List.length_append, List.length_replicate]
      omega
    · rw [getD_append_zeros, List.take_of_length_le (by omega)]
  · have htake : (s.take 31).length = 31 := by
      rw [List.length_take]
      omega
    have hlong : strncpy (s.take 31 ++ (s.drop 31 ++ [0])) (s.take 31).length = some (s.take 31) :=
      strncpy_long (fun h0 => h (List.mem_of_mem_take h0)) _
    rw [htake, ← List.append_assoc, List.take_append_drop] at hlong
    exact ⟨_, hlong, by omega, fun k => rfl⟩

/-- the first comma is at one place -/
theorem split_unique {b b' f f' : List Byte} (h0 : 0 ∉ b ++ comma :: f) (hb : comma ∉ b) (hb' : comma ∉ b')
    (h : b ++ comma :: f = b' ++ comma :: f') : b = b' ∧ f = f' := by
  have h1 := strchr_some (fun hm => h0 (List.mem_append_left _ hm)) hb f
  rw [h] at h0 h1
  rw [strchr_some (fun hm => h0 (List.mem_append_left _ hm)) hb' f'] at h1
  have hlen : b'.length = b.length := Option.some.inj (Option.some.inj h1)
  obtain ⟨heq, htail⟩ := List.append_inj h hlen.symm
  exact ⟨heq, List.tail_eq_of_cons_eq htail⟩

/-- the struct behind the two copies -/
theorem hvBootarg_buffers {bio : List Byte} (fs : List Byte) (hbio : bio.length ≤ HV_BUFFER_MIN_LEN) :
    Buffer (hvBootarg [⟨bioOffset, bio⟩, ⟨fsOffset, fs⟩]) bioOffset bio ∧
      Buffer (hvBootarg [⟨bioOffset, bio⟩, ⟨fsOffset, fs⟩]) fsOffset fs := by
  refine ⟨fun k hk => ?_, fun k hk => ?_⟩
  · show storeCopy (storeCopy _ _) _ _ = _
    unfold storeCopy bioOffset fsOffset
    dsimp only
    rw [if_neg (by omega), Nat.zero_add, Nat.sub_zero]
    by_cases h : k < bio.length
    · rw [if_pos ⟨Nat.zero_le k, by omega⟩]
    · rw [if_neg (by omega), List.getD_eq_default _ 0 (not_lt.mp h)]
  · show storeCopy (storeCopy _ _) _ _ = _
    unfold storeCopy bioOffset fsOffset
    dsimp only
    rw [show HV_BUFFER_MIN_LEN + k - HV_BUFFER_MIN_LEN = k by omega]
    by_cases h : k < fs.length
    · rw [if_pos ⟨by omega, by omega⟩]
    · rw [if_neg (by omega), if_neg (by omega), List.getD_eq_default _ 0 (not_lt.mp h)]

end

/-- **The boot arguments.**  The parser ends and reads no byte behind the NUL.  Without "root=", or without a comma
behind the first, it stores nothing.  Else it takes all that is before the first comma for `bio`, and all that is
behind it, later words too, for `fs`, which stays in its buffer; and if the first part is shorter than its buffer,
both buffers hold their part and a NUL. -/
theorem parse_bootargs (a : BootArg) : ∃ ret copies, parseBootargs a.block = some (ret, copies) ∧
    ((∀ i, ¬ rootKey <+: a.str.drop i) → ret = -1 ∧ copies = []) ∧
    (∀ i, FirstAt rootKey a.str i → comma ∉ a.str.drop (i + 5) → ret = -2 ∧ copies = []) ∧
    ∀ i bio fs, FirstAt rootKey a.str i → a.str.drop (i + 5) = bio ++ comma :: fs → comma ∉ bio →
      ret = 0 ∧ ∃ l, copies = [⟨bioOffset, bio⟩, ⟨fsOffset, l⟩] ∧ l.length ≤ HV_BUFFER_MIN_LEN ∧
        (bio.length < HV_BUFFER_MIN_LEN → Buffer (hvBootarg copies) bioOffset bio ∧
          Buffer (hvBootarg copies) fsOffset (fs.take (HV_BUFFER_MIN_LEN - 1))) := by
  have hkey0 : (0 : Byte) ∉ rootKey := by decide
  obtain ⟨r, hr, hfound⟩ := strstr_spec (p := rootKey) [] [] (by decide) hkey0 a.nul (by decide) a.len
  have hdrop : ∀ k ≤ a.str.length, a.block.drop k = a.str.drop k ++ [0] :=
    fun k hk => List.drop_append_of_le_length hk
  unfold parseBootargs
  rw [show strstr a.block (rootKey ++ [0]) = some r from hr]
  cases r with
  | none =>
    refine ⟨-1, [], rfl, fun _ => ⟨rfl, rfl⟩, fun i hi => ?_, fun i bio fs hi => ?_⟩
    · exact absurd hi.1 (hfound i)
    · exact absurd hi.1 (hfound i)
  | some i =>
    have hle : i + 5 ≤ a.str.length := by
      have h := hfound.1.length_le
      rw [List.length_drop, show rootKey.length = 5 from rfl] at h
      omega
    have hnul : 0 ∉ a.str.drop (i + 5) := fun h => a.nul (List.mem_of_mem_drop h)
    by_cases hc : comma ∈ a.str.drop (i + 5)
    · obtain ⟨bio, fs, hsplit, hbio⟩ := List.eq_append_cons_of_mem hc
      rw [hsplit] at hnul
      have hfs0 : 0 ∉ fs := fun h => hnul (List.mem_append_right _ (List.mem_cons_of_mem _ h))
      have hbio0 : 0 ∉ bio := fun h => hnul (List.mem_append_left _ h)
      obtain ⟨l, hl, hlen, hget⟩ := strncpy_bounded hfs0
      refine ⟨0, [⟨bioOffset, bio⟩, ⟨fsOffset, l⟩], ?_, fun h => absurd hfound.1 (h i), fun j hj hs => ?_,
        fun j bio' fs' hj hs hbio' => ?_⟩
      · show (strchr comma (a.block.drop (i + 5))).bind _ = _
        rw [hdrop _ hle, hsplit, List.append_assoc, List.cons_append, strchr_some hbio0 hbio]
        show (strncpy _ _).bind (fun b => (strncpy _ _).bind _) = _
        have hbehind : (bio ++ comma :: (fs ++ [0])).drop (bio.length + 1) = fs ++ [0] := by
          rw [List.drop_append, List.drop_eq_nil_of_le (by omega), Nat.add_sub_cancel_left]
          rfl
        rw [strncpy_long hbio0, hbehind, hl]
        rfl
      · rw [← hfound.unique hj] at hs
        exact absurd hc hs
      · rw [← hfound.unique hj, hsplit] at hs
        obtain ⟨rfl, rfl⟩ := split_unique hnul hbio hbio' hs
        refine ⟨rfl, l, rfl, hlen, fun hshort => ?_⟩
        obtain ⟨h1, h2⟩ := hvBootarg_buffers l (Nat.le_of_lt hshort)
        exact ⟨h1, fun k hk => (h2 k hk).trans (hget k)⟩
    · refine ⟨-2, [], ?_, fun h => absurd hfound.1 (h i), fun _ _ _ => ⟨rfl, rfl⟩, fun j bio fs hj hs => ?_⟩
      · show (strchr comma (a.block.drop (i + 5))).bind _ = _
        rw [hdrop _ hle, strchr_none hnul hc (by decide)]
        rfl
      · rw [← hfound.unique hj] at hs
        rw [hs] at hc
        exact absurd (List.mem_append_right _ List.mem_cons_self) hc

/-- "root=a,b c=d" -/
def rootFirst : BootArg :=
  ⟨[0x72, 0x6f, 0x6f, 0x74, 0x3d, 0x61, 0x2c, 0x62, 0x20, 0x63, 0x3d, 0x64], by decide, by decide⟩

/-- the copies of `rootFirst` -/
def rootFirstCopies : List Copy :=
  [⟨bioOffset, [0x61]⟩, ⟨fsOffset, [0x62, 0x20, 0x63, 0x3d, 0x64] ++ List.replicate 27 0⟩]

theorem rootFirst_parse : parseBootargs rootFirst.block = some (0, rootFirstCopies) := rfl

/-- `fs` becomes "b c=d" -/
theorem parse_bootargs_words : ¬ ∀ a : BootArg, SplitsWords a := by
  intro h
  obtain ⟨ret, copies, hp, -, hw⟩ := h rootFirst
  rw [rootFirst_parse] at hp
  cases hp
  have hfs := (hw [0x61] [0x62] rfl (by decide)).2 1 (by decide)
  exact absurd hfs (by decide)

theorem parse_bootargs_first : Buffer (hvBootarg rootFirstCopies) bioOffset [0x61] ∧
    Buffer (hvBootarg rootFirstCopies) fsOffset [0x62, 0x20, 0x63, 0x3d, 0x64] := by
  obtain ⟨ret, copies, hp, -, -, hroot⟩ := parse_bootargs rootFirst
  rw [rootFirst_parse] at hp
  cases hp
  have hfirst : FirstAt rootKey rootFirst.str 0 := ⟨by decide, fun j hj => absurd hj (Nat.not_lt_zero j)⟩
  obtain ⟨-, l, -, -, hbuf⟩ := hroot 0 [0x61] [0x62, 0x20, 0x63, 0x3d, 0x64] hfirst rfl (by decide)
  exact hbuf (by decide)

end Boot
end LkHv
