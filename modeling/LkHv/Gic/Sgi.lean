import Mathlib.Tactic.IntervalCases

/-!
# Software generated interrupts of the GIC (`dev/interrupt/gic_v3/gic_v3.c`)

`arm_gic_sgi` gets a mask of CPUs and writes ICC_SGI1R_EL1 once for each cluster with a CPU in the mask.

* `Affinity`, `sgiTargets`   which CPUs a write of ICC_SGI1R_EL1 interrupts;
* `calcTglist`, `armGicSgi`  the source's; both loops end after `sizeof` rounds;
* `calcTglist_spec`          the target list of a cluster, and what is left of the mask;
* `armGicSgi_count`          how often a CPU is interrupted;
* `armGicSgi_iff`            when these are the CPUs of the mask;
* `armGicSgi_fails`          not so for a CPU from 4 on.
-/

namespace LkHv.Gic

/-! ## the register -/

structure Affinity where
  aff3 : BitVec 8
  aff2 : BitVec 8
  aff1 : BitVec 8
  aff0 : BitVec 8
  deriving DecidableEq

/-- the affinity in MPIDR_EL1 -/
def affinity (mpidr : BitVec 64) : Affinity where
  aff3 := mpidr.extractLsb' 32 8
  aff2 := mpidr.extractLsb' 16 8
  aff1 := mpidr.extractLsb' 8 8
  aff0 := mpidr.extractLsb' 0 8

/-- the affinity levels, the range selector and the target list of ICC_SGI1R_EL1 name a CPU -/
def sgiListed (val : BitVec 64) (a : Affinity) : Bool :=
  val.extractLsb' 48 8 == a.aff3 && val.extractLsb' 32 8 == a.aff2 && val.extractLsb' 16 8 == a.aff1 &&
    (val.extractLsb' 44 4).toNat == a.aff0.toNat / 16 && val.getLsbD (a.aff0.toNat % 16)

/-- a write of `val` by the CPU `self` interrupts the CPU `a`; bit 40 is IRM -/
def sgiTargets (self : Affinity) (val : BitVec 64) (a : Affinity) : Bool :=
  if val.getLsbD 40 then a != self else sgiListed val a

/-! ## the functions -/

def MPIDR_AFF0_MASK : BitVec 64 := 0xff

/-- `cpu_id_map` once each of the `cpus` CPUs has run `init_cpu_map`: no two have one affinity -/
structure CpuIdMap (cpus : Nat) where
  map : Nat → BitVec 64
  masked : ∀ i, map i &&& 0xff00ffffff = map i
  inj : ∀ i < cpus, ∀ j < cpus, affinity (map i) = affinity (map j) → i = j

/-- `sizeof(cpu_mask)`, a `uint32_t` -/
def SIZEOF_CPU_MASK : Nat := 4

section
variable (map : Nat → BitVec 64)

def clusterId (i : Nat) : BitVec 64 := map i &&& ~~~MPIDR_AFF0_MASK

def cpuAff0 (i : Nat) : Nat := (map i &&& MPIDR_AFF0_MASK).toNat

/-- the body of the loop of `calc_tglist`; a shift of an `int` takes the amount modulo 32 -/
def tglistStep (cluster : BitVec 64) (s : BitVec 16 × BitVec 32) (i : Nat) : BitVec 16 × BitVec 32 :=
  if s.2 &&& (1#32 <<< i) = 0 then s
  else if clusterId map i ≠ cluster then s
  else (s.1 ||| (1#32 <<< (cpuAff0 map i % 32)).setWidth 16, s.2 &&& ~~~(1#32 <<< i))

/-- `calc_tglist`: the list, and the mask it leaves -/
def calcTglist (cpuMask : BitVec 32) (cluster : BitVec 64) : BitVec 16 × BitVec 32 :=
  (List.range SIZEOF_CPU_MASK).foldl (tglistStep map cluster) (0, cpuMask)

/-- the value for ICC_SGI1R_EL1 -/
def sgiVal (irq : BitVec 32) (cluster : BitVec 64) (tglist : BitVec 16) : BitVec 64 :=
  (cluster &&& 0xff00000000) <<< (48 - 32) ||| (cluster &&& 0x0000ff0000) <<< (32 - 16) |||
    (cluster &&& 0x000000ff00) <<< (16 - 8) ||| (irq <<< 24).setWidth 64 ||| tglist.setWidth 64

/-- the body of the loop of `arm_gic_sgi`: the mask, and the values written -/
def sgiStep (irq : BitVec 32) (s : BitVec 32 × List (BitVec 64)) (i : Nat) : BitVec 32 × List (BitVec 64) :=
  if s.1 &&& (1#32 <<< i) = 0 then s
  else
    let cluster := clusterId map i
    let r := calcTglist map s.1 cluster
    (r.2, s.2 ++ [sgiVal irq cluster r.1])

/-- `arm_gic_sgi`: the values it writes to ICC_SGI1R_EL1 -/
def armGicSgi (irq cpuMask : BitVec 32) : List (BitVec 64) :=
  ((List.range SIZEOF_CPU_MASK).foldl (sgiStep map irq) (cpuMask, [])).2

end

/-- **Delivery**: the CPUs of the mask are interrupted once each, and no other CPU is. -/
def SgiDelivered {cpus : Nat} (m : CpuIdMap cpus) (irq cpuMask : BitVec 32) : Prop :=
  ∀ self, ∀ c < cpus, (armGicSgi m.map irq cpuMask).countP (fun val => sgiTargets self val (affinity (m.map c))) =
    if cpuMask.getLsbD c then 1 else 0

/-! ## the fields of the value -/

section
variable {irq : BitVec 32} {cluster : BitVec 64} {tglist : BitVec 16}

theorem sgiVal_irm : (sgiVal irq cluster tglist).getLsbD 40 = false := by
  simp [sgiVal]

theorem sgiVal_rs : (sgiVal irq cluster tglist).extractLsb' 44 4 = 0 := by
  apply BitVec.eq_of_getLsbD_eq
  intro i hi
  interval_cases i <;> simp [sgiVal]

theorem sgiVal_aff3 : (sgiVal irq cluster tglist).extractLsb' 48 8 = cluster.extractLsb' 32 8 := by
  apply BitVec.eq_of_getLsbD_eq
  intro i hi
  interval_cases i <;> simp [sgiVal]

theorem sgiVal_aff2 : (sgiVal irq cluster tglist).extractLsb' 32 8 = cluster.extractLsb' 16 8 := by
  apply BitVec.eq_of_getLsbD_eq
  intro i hi
  interval_cases i <;> simp [sgiVal]

theorem sgiVal_aff1 : (sgiVal irq cluster tglist).extractLsb' 16 8 = cluster.extractLsb' 8 8 := by
  apply BitVec.eq_of_getLsbD_eq
  intro i hi
  interval_cases i <;> simp [sgiVal]

theorem sgiVal_tglist {b : Nat} (hb : b < 16) : (sgiVal irq cluster tglist).getLsbD b = tglist.getLsbD b := by
  interval_cases b <;> simp [sgiVal]

end

/-! ## `calc_tglist` -/

/-- `mask & (1 << i)` -/
theorem and_bit_eq_zero (x : BitVec 32) {i : Nat} (hi : i < 32) : x &&& (1#32 <<< i) = 0 ↔ x.getLsbD i = false := by
  rw [← BitVec.twoPow_eq]
  constructor
  · intro h
    have hbit := congrArg (fun y => BitVec.getLsbD y i) h
    simpa [hi] using hbit
  · intro h
    apply BitVec.eq_of_getLsbD_eq
    intro j hj
    rw [BitVec.getLsbD_and, BitVec.getLsbD_twoPow]
    by_cases hij : i = j
    · simp [← hij, h]
    · simp [hij]

/-- `mask & ~(1 << i)` -/
theorem clear_bit (x : BitVec 32) (i j : Nat) :
    (x &&& ~~~(1#32 <<< i)).getLsbD j = (x.getLsbD j && decide (j ≠ i)) := by
  rw [← BitVec.twoPow_eq, BitVec.getLsbD_and, BitVec.getLsbD_not, BitVec.getLsbD_twoPow]
  by_cases hj : j < 32
  · by_cases hij : i = j
    · simp [hij, hj]
    · simp [hij, hj, Ne.symm hij]
  · rw [BitVec.getLsbD_of_ge x j (by omega)]
    rfl

/-- `list | (1 << cpu)` -/
theorem add_target (x : BitVec 16) (a : Nat) {b : Nat} (hb : b < 16) :
    (x ||| (1#32 <<< (a % 32)).setWidth 16).getLsbD b = true ↔ x.getLsbD b = true ∨ a % 32 = b := by
  rw [BitVec.getLsbD_or, Bool.or_eq_true, ← BitVec.twoPow_eq, BitVec.getLsbD_setWidth, BitVec.getLsbD_twoPow]
  have hmod : a % 32 < 32 := Nat.mod_lt _ (by decide)
  simp [hb, hmod]

section
variable {map : Nat → BitVec 64} {cluster : BitVec 64} {mask : BitVec 32}

/-- the loop of `calc_tglist` after `m` rounds -/
theorem tglist_fold (m : Nat) (hm : m ≤ 32) :
    (∀ j, ((List.range m).foldl (tglistStep map cluster) (0, mask)).2.getLsbD j = true ↔
      mask.getLsbD j = true ∧ ¬ (j < m ∧ clusterId map j = cluster)) ∧
    ∀ b < 16, ((List.range m).foldl (tglistStep map cluster) (0, mask)).1.getLsbD b = true ↔
      ∃ i < m, mask.getLsbD i = true ∧ clusterId map i = cluster ∧ cpuAff0 map i % 32 = b := by
  induction m with
  | zero => simp
  | succ m ih =>
    obtain ⟨hleft, hlist⟩ := ih (by lia)
    rw [List.range_succ, List.foldl_append, List.foldl_cons, List.foldl_nil]
    -- bit `m` is as in the mask still
    have hbit := hleft m
    rw [and_iff_left fun h => absurd h.1 (Nat.lt_irrefl m)] at hbit
    rw [tglistStep]
    by_cases h0 : ((List.range m).foldl (tglistStep map cluster) (0, mask)).2 &&& (1#32 <<< m) = 0
    · rw [if_pos h0]
      rw [and_bit_eq_zero _ (by lia)] at h0
      have hno : ¬ mask.getLsbD m = true := fun h => by
        rw [hbit.mpr h] at h0
        cases h0
      refine ⟨fun j => ?_, fun b hb => ?_⟩
      · rw [hleft j]
        refine and_congr_right fun hj => not_congr (and_congr_left fun _ => ?_)
        have : j ≠ m := fun e => hno (e ▸ hj)
        lia
      · rw [hlist b hb]
        constructor
        · rintro ⟨i, hi, h⟩
          exact ⟨i, by lia, h⟩
        · rintro ⟨i, hi, h⟩
          have : i ≠ m := fun e => hno (e ▸ h.1)
          exact ⟨i, by lia, h⟩
    · rw [if_neg h0]
      rw [and_bit_eq_zero _ (by lia), Bool.not_eq_false] at h0
      have hset := hbit.mp h0
      by_cases hc : clusterId map m = cluster
      · rw [if_neg (not_not.mpr hc)]
        refine ⟨fun j => ?_, fun b hb => ?_⟩
        · rw [clear_bit, Bool.and_eq_true, hleft j, decide_eq_true_eq]
          constructor
          · rintro ⟨⟨h1, h2⟩, h3⟩
            exact ⟨h1, fun h => h2 ⟨by lia, h.2⟩⟩
          · rintro ⟨h1, h2⟩
            exact ⟨⟨h1, fun h => h2 ⟨by lia, h.2⟩⟩, fun e => h2 ⟨by lia, e ▸ hc⟩⟩
        · rw [add_target _ _ hb, hlist b hb]
          constructor
          · rintro (⟨i, hi, h⟩ | h)
            · exact ⟨i, by lia, h⟩
            · exact ⟨m, by lia, hset, hc, h⟩
          · rintro ⟨i, hi, h⟩
            by_cases him : i = m
            · exact .inr (him ▸ h.2.2)
            · exact .inl ⟨i, by lia, h⟩
      · rw [if_pos hc]
        refine ⟨fun j => ?_, fun b hb => ?_⟩
        · rw [hleft j]
          refine and_congr_right fun hj => not_congr (and_congr_left fun hcl => ?_)
          have : j ≠ m := fun e => hc (e ▸ hcl)
          lia
        · rw [hlist b hb]
          constructor
          · rintro ⟨i, hi, h⟩
            exact ⟨i, by lia, h⟩
          · rintro ⟨i, hi, h⟩
            have : i ≠ m := fun e => hc (e ▸ h.2.1)
            exact ⟨i, by lia, h⟩

/-- **`calc_tglist`** takes the CPUs of the cluster that it looks at out of the mask and into the list. -/
theorem calcTglist_spec : (∀ j, (calcTglist map mask cluster).2.getLsbD j = true ↔
      mask.getLsbD j = true ∧ ¬ (j < SIZEOF_CPU_MASK ∧ clusterId map j = cluster)) ∧
    ∀ b < 16, (calcTglist map mask cluster).1.getLsbD b = true ↔
      ∃ i < SIZEOF_CPU_MASK, mask.getLsbD i = true ∧ clusterId map i = cluster ∧ cpuAff0 map i % 32 = b :=
  tglist_fold SIZEOF_CPU_MASK (by decide)

end

/-! ## clusters -/

theorem extract_bits {x y : BitVec 64} {k : Nat} (h : x.extractLsb' k 8 = y.extractLsb' k 8) {j : Nat} (h1 : k ≤ j)
    (h2 : j < k + 8) : x.getLsbD j = y.getLsbD j := by
  have hbit := congrArg (fun z => BitVec.getLsbD z (j - k)) h
  simpa [BitVec.getLsbD_extractLsb', show j - k < 8 by omega, show k + (j - k) = j by omega] using hbit

/-- the affinity levels from 1 on are in the cluster -/
theorem clusterId_field (map : Nat → BitVec 64) (i : Nat) {k : Nat} (hk : 8 ≤ k) :
    (clusterId map i).extractLsb' k 8 = (map i).extractLsb' k 8 := by
  have hkeep : ∀ j < 64, 8 ≤ j → (~~~MPIDR_AFF0_MASK).getLsbD j = true := by decide
  apply BitVec.eq_of_getLsbD_eq
  intro j hj
  rw [BitVec.getLsbD_extractLsb', BitVec.getLsbD_extractLsb', clusterId, BitVec.getLsbD_and]
  by_cases hlt : k + j < 64
  · rw [hkeep _ hlt (by lia), Bool.and_true]
  · rw [BitVec.getLsbD_of_ge _ _ (by lia : 64 ≤ k + j), Bool.false_and]

section
variable {cpus : Nat} (m : CpuIdMap cpus) (i c : Nat)

theorem aff_eq_of_cluster (h : clusterId m.map i = clusterId m.map c) :
    (affinity (m.map i)).aff3 = (affinity (m.map c)).aff3 ∧ (affinity (m.map i)).aff2 = (affinity (m.map c)).aff2 ∧
      (affinity (m.map i)).aff1 = (affinity (m.map c)).aff1 := by
  have hfield : ∀ k, 8 ≤ k → (m.map i).extractLsb' k 8 = (m.map c).extractLsb' k 8 := by
    intro k hk
    rw [← clusterId_field m.map i hk, ← clusterId_field m.map c hk, h]
  exact ⟨hfield 32 (by decide), hfield 16 (by decide), hfield 8 (by decide)⟩

/-- a cluster is the three upper affinity levels -/
theorem cluster_eq_iff : clusterId m.map i = clusterId m.map c ↔
    (affinity (m.map i)).aff3 = (affinity (m.map c)).aff3 ∧ (affinity (m.map i)).aff2 = (affinity (m.map c)).aff2 ∧
      (affinity (m.map i)).aff1 = (affinity (m.map c)).aff1 := by
  refine ⟨aff_eq_of_cluster m i c, fun ⟨h3, h2, h1⟩ => ?_⟩
  have hres : ∀ j < 64, 24 ≤ j ∧ j < 32 ∨ 40 ≤ j → (0xff00ffffff : BitVec 64).getLsbD j = false := by decide
  have hlow : ∀ j < 8, (~~~MPIDR_AFF0_MASK).getLsbD j = false := by decide
  apply BitVec.eq_of_getLsbD_eq
  intro j hj
  rw [clusterId, clusterId, BitVec.getLsbD_and, BitVec.getLsbD_and]
  by_cases h8 : j < 8
  · rw [hlow j h8, Bool.and_false, Bool.and_false]
  by_cases hz : 24 ≤ j ∧ j < 32 ∨ 40 ≤ j
  · rw [← m.masked i, ← m.masked c, BitVec.getLsbD_and, BitVec.getLsbD_and, hres j hj hz, Bool.and_false,
      Bool.and_false]
  congr 1
  by_cases h16 : j < 16
  · exact extract_bits h1 (by omega) (by omega)
  by_cases h24 : j < 24
  · exact extract_bits h2 (by omega) (by omega)
  · exact extract_bits h3 (by omega) (by omega)

theorem cpuAff0_eq : cpuAff0 m.map i = (affinity (m.map i)).aff0.toNat := by
  rw [cpuAff0, affinity, BitVec.toNat_and, BitVec.extractLsb'_toNat, Nat.shiftRight_zero,
    show MPIDR_AFF0_MASK.toNat = 2 ^ 8 - 1 from rfl, Nat.and_two_pow_sub_one_eq_mod]

/-- two CPUs with one affinity -/
theorem affinity_eq (hcl : clusterId m.map i = clusterId m.map c) (h0 : cpuAff0 m.map i = cpuAff0 m.map c) :
    affinity (m.map i) = affinity (m.map c) := by
  obtain ⟨h3, h2, h1⟩ := aff_eq_of_cluster m i c hcl
  rw [cpuAff0_eq, cpuAff0_eq] at h0
  have h0' := BitVec.eq_of_toNat_eq h0
  rw [affinity, affinity] at *
  simp only [Affinity.mk.injEq]
  exact ⟨h3, h2, h1, h0'⟩

/-- **A write** for the cluster of `i` interrupts the CPUs of the cluster on the target list. -/
theorem sgiTargets_iff (self : Affinity) (irq : BitVec 32) (tglist : BitVec 16) :
    sgiTargets self (sgiVal irq (clusterId m.map i) tglist) (affinity (m.map c)) = true ↔
      clusterId m.map i = clusterId m.map c ∧ cpuAff0 m.map c < 16 ∧ tglist.getLsbD (cpuAff0 m.map c) = true := by
  have hlisted : sgiListed (sgiVal irq (clusterId m.map i) tglist) (affinity (m.map c)) = true ↔
      ((((affinity (m.map i)).aff3 = (affinity (m.map c)).aff3 ∧
        (affinity (m.map i)).aff2 = (affinity (m.map c)).aff2) ∧
        (affinity (m.map i)).aff1 = (affinity (m.map c)).aff1) ∧ 0 = cpuAff0 m.map c / 16) ∧
        (sgiVal irq (clusterId m.map i) tglist).getLsbD (cpuAff0 m.map c % 16) = true := by
    rw [sgiListed, sgiVal_aff3, sgiVal_aff2, sgiVal_aff1, sgiVal_rs, clusterId_field m.map i (by decide),
      clusterId_field m.map i (by decide), clusterId_field m.map i (by decide), ← cpuAff0_eq m c]
    simp only [Bool.and_eq_true, beq_iff_eq]
    exact Iff.rfl
  rw [sgiTargets, sgiVal_irm, if_neg Bool.false_ne_true, hlisted, cluster_eq_iff m i c,
    sgiVal_tglist (Nat.mod_lt _ (by decide))]
  simp only [and_assoc]
  refine and_congr_right fun _ => and_congr_right fun _ => and_congr_right fun _ => ?_
  constructor
  · rintro ⟨h, hb⟩
    have hlt : cpuAff0 m.map c < 16 := by lia
    rw [Nat.mod_eq_of_lt hlt] at hb
    exact ⟨hlt, hb⟩
  · rintro ⟨hlt, hb⟩
    rw [Nat.mod_eq_of_lt hlt]
    exact ⟨by lia, hb⟩

end

/-! ## `arm_gic_sgi` -/

section
variable {cpus : Nat} (m : CpuIdMap cpus) (irq mask : BitVec 32)

/-- a CPU that the loops look at is in the mask, and has the target bit of `c` -/
def Hit (c : Nat) : Prop :=
  cpuAff0 m.map c < 16 ∧ ∃ i < SIZEOF_CPU_MASK, mask.getLsbD i = true ∧ clusterId m.map i = clusterId m.map c ∧
    cpuAff0 m.map i % 32 = cpuAff0 m.map c

/-- one of the first `k` CPUs is in the mask and in the cluster of `c` -/
def Served (k c : Nat) : Prop := ∃ i < k, mask.getLsbD i = true ∧ clusterId m.map i = clusterId m.map c

theorem served_succ {k c : Nat} :
    Served m mask (k + 1) c ↔ Served m mask k c ∨ mask.getLsbD k = true ∧ clusterId m.map k = clusterId m.map c := by
  constructor
  · rintro ⟨i, hi, h⟩
    by_cases hik : i = k
    · exact .inr (hik ▸ h)
    · exact .inl ⟨i, by lia, h⟩
  · rintro (⟨i, hi, h⟩ | h)
    · exact ⟨i, by lia, h⟩
    · exact ⟨k, by lia, h⟩

/-- the state of the loop of `arm_gic_sgi` after `k` rounds: the clusters of the CPUs it has looked at are served -/
structure SgiInv (k : Nat) (s : BitVec 32 × List (BitVec 64)) : Prop where
  left : ∀ j, s.1.getLsbD j = true ↔ mask.getLsbD j = true ∧ ¬ (j < SIZEOF_CPU_MASK ∧ Served m mask k j)
  hit : ∀ self c, Served m mask k c ∧ Hit m mask c →
    s.2.countP (fun val => sgiTargets self val (affinity (m.map c))) = 1
  miss : ∀ self c, ¬ (Served m mask k c ∧ Hit m mask c) →
    s.2.countP (fun val => sgiTargets self val (affinity (m.map c))) = 0

section
variable {m : CpuIdMap cpus} {irq mask : BitVec 32} {k : Nat} {s : BitVec 32 × List (BitVec 64)}

/-- CPU `k` is not in the mask, or served already -/
theorem SgiInv.skip (h : SgiInv m mask k s) (h0 : s.1.getLsbD k = false) : SgiInv m mask (k + 1) s := by
  have hbit := h.left k
  rw [h0, Bool.false_eq_true, false_iff, not_and, not_not] at hbit
  have hsame : ∀ c, Served m mask (k + 1) c ↔ Served m mask k c := by
    intro c
    rw [served_succ, or_iff_left_of_imp]
    rintro ⟨hset, hcl⟩
    obtain ⟨i, hi, hset', hcl'⟩ := (hbit hset).2
    exact ⟨i, hi, hset', hcl'.trans hcl⟩
  refine ⟨fun j => ?_, fun self c => ?_, fun self c => ?_⟩
  · rw [hsame]
    exact h.left j
  · rw [hsame]
    exact h.hit self c
  · rw [hsame]
    exact h.miss self c

/-- CPU `k` is the first of its cluster -/
theorem SgiInv.write (h : SgiInv m mask k s) (hk : k < SIZEOF_CPU_MASK) (h0 : s.1.getLsbD k = true) :
    SgiInv m mask (k + 1) ((calcTglist m.map s.1 (clusterId m.map k)).2,
      s.2 ++ [sgiVal irq (clusterId m.map k) (calcTglist m.map s.1 (clusterId m.map k)).1]) := by
  obtain ⟨hset, hfresh⟩ := (h.left k).mp h0
  obtain ⟨hmask, hlist⟩ := @calcTglist_spec m.map (clusterId m.map k) s.1
  have hnone : ∀ c, clusterId m.map k = clusterId m.map c → ¬ Served m mask k c := by
    rintro c hcl ⟨i, hi, hi1, hi2⟩
    exact hfresh ⟨hk, i, hi, hi1, hi2.trans hcl.symm⟩
  -- what the write interrupts
  have hhit : ∀ self c, clusterId m.map k = clusterId m.map c →
      (sgiTargets self (sgiVal irq (clusterId m.map k) (calcTglist m.map s.1 (clusterId m.map k)).1)
        (affinity (m.map c)) = true ↔ Hit m mask c) := by
    intro self c hcl
    rw [sgiTargets_iff m k c, and_iff_right hcl]
    refine and_congr_right fun hlt => ?_
    rw [hlist _ hlt]
    refine exists_congr fun i => and_congr_right fun hi => ?_
    rw [hcl]
    constructor
    · rintro ⟨h1, h2⟩
      exact ⟨((h.left i).mp h1).1, h2⟩
    · rintro ⟨h1, h2⟩
      exact ⟨(h.left i).mpr ⟨h1, fun hs => hnone i (hcl.trans h2.1.symm) hs.2⟩, h2⟩
  have hother : ∀ self c, clusterId m.map k ≠ clusterId m.map c →
      ¬ sgiTargets self (sgiVal irq (clusterId m.map k) (calcTglist m.map s.1 (clusterId m.map k)).1)
        (affinity (m.map c)) = true := fun self c hcl ht => hcl ((sgiTargets_iff m k c self irq _).mp ht).1
  refine ⟨fun j => ?_, fun self c hc => ?_, fun self c hc => ?_⟩
  · rw [hmask j, h.left j, served_succ]
    constructor
    · rintro ⟨⟨h1, h2⟩, h3⟩
      refine ⟨h1, fun ⟨h4, h5⟩ => ?_⟩
      rcases h5 with h5 | ⟨-, h5⟩
      · exact h2 ⟨h4, h5⟩
      · exact h3 ⟨h4, h5.symm⟩
    · rintro ⟨h1, h2⟩
      exact ⟨⟨h1, fun h => h2 ⟨h.1, .inl h.2⟩⟩, fun h => h2 ⟨h.1, .inr ⟨hset, h.2.symm⟩⟩⟩
  · rw [List.countP_append, List.countP_singleton]
    by_cases hcl : clusterId m.map k = clusterId m.map c
    · rw [h.miss self c fun hs => hnone c hcl hs.1, if_pos ((hhit self c hcl).mpr hc.2)]
    · rw [served_succ, or_iff_left fun hs => hcl hs.2] at hc
      rw [h.hit self c hc, if_neg (hother self c hcl)]
  · rw [List.countP_append, List.countP_singleton]
    by_cases hcl : clusterId m.map k = clusterId m.map c
    · rw [h.miss self c fun hs => hnone c hcl hs.1, if_neg]
      exact fun ht => hc ⟨(served_succ m mask).mpr (.inr ⟨hset, hcl⟩), (hhit self c hcl).mp ht⟩
    · rw [served_succ, or_iff_left fun hs => hcl hs.2] at hc
      rw [h.miss self c hc, if_neg (hother self c hcl)]

/-- the loop of `arm_gic_sgi` -/
theorem sgi_fold (k : Nat) (hk : k ≤ SIZEOF_CPU_MASK) :
    SgiInv m mask k ((List.range k).foldl (sgiStep m.map irq) (mask, [])) := by
  induction k with
  | zero =>
    have hno : ∀ c, ¬ Served m mask 0 c := fun c ⟨i, hi, _⟩ => absurd hi (Nat.not_lt_zero i)
    refine ⟨fun j => ?_, fun self c h => absurd h.1 (hno c), fun _ _ _ => rfl⟩
    rw [and_iff_left fun h => hno j h.2]
    rfl
  | succ k ih =>
    have hinv := ih (by omega)
    have hk32 : k < 32 := Nat.lt_of_lt_of_le hk (by decide)
    rw [List.range_succ, List.foldl_append, List.foldl_cons, List.foldl_nil, sgiStep]
    by_cases h0 : ((List.range k).foldl (sgiStep m.map irq) (mask, [])).1 &&& (1#32 <<< k) = 0
    · rw [if_pos h0]
      exact hinv.skip ((and_bit_eq_zero _ hk32).mp h0)
    · rw [if_neg h0]
      rw [and_bit_eq_zero _ hk32, Bool.not_eq_false] at h0
      exact hinv.write hk h0

end

/-- **How often a CPU is interrupted**: once if it is hit, else never -/
theorem armGicSgi_count (self : Affinity) (c : Nat) :
    (Hit m mask c → (armGicSgi m.map irq mask).countP (fun val => sgiTargets self val (affinity (m.map c))) = 1) ∧
      (¬ Hit m mask c →
        (armGicSgi m.map irq mask).countP (fun val => sgiTargets self val (affinity (m.map c))) = 0) := by
  have hinv : SgiInv m mask SIZEOF_CPU_MASK ((List.range SIZEOF_CPU_MASK).foldl (sgiStep m.map irq) (mask, [])) :=
    sgi_fold _ le_rfl
  refine ⟨fun h => hinv.hit self c ⟨?_, h⟩, fun h => hinv.miss self c fun hs => h hs.2⟩
  obtain ⟨-, i, hi, hset, hcl, -⟩ := h
  exact ⟨i, hi, hset, hcl⟩

/-- **Delivery.**  The CPUs of a mask are interrupted once each and no other is if and only if all of them are among
the first `sizeof(cpu_mask)`, with an affinity of level 0 below 16. -/
theorem armGicSgi_iff (hmask : ∀ i, mask.getLsbD i = true → i < cpus) :
    SgiDelivered m irq mask ↔ ∀ i, mask.getLsbD i = true → i < SIZEOF_CPU_MASK ∧ cpuAff0 m.map i < 16 := by
  have hcount := armGicSgi_count m irq mask
  have hsame : ∀ i c, i < cpus → c < cpus → clusterId m.map i = clusterId m.map c →
      cpuAff0 m.map i = cpuAff0 m.map c → i = c :=
    fun i c hi hc hcl h0 => m.inj i hi c hc (affinity_eq m i c hcl h0)
  constructor
  · intro h i hset
    have hhit : ∀ c, mask.getLsbD c = true → Hit m mask c := by
      intro c hc
      by_contra hno
      have hd := h (affinity 0) c (hmask c hc)
      rw [(hcount _ c).2 hno, if_pos hc] at hd
      cases hd
    obtain ⟨hlt, j, hj, hsetj, hcl, h0⟩ := hhit i hset
    -- the target bit of `i` is that of `j`, which has a small affinity of level 0 too
    have hltj := (hhit j hsetj).1
    rw [Nat.mod_eq_of_lt (by omega)] at h0
    rw [← hsame j i (hmask j hsetj) (hmask i hset) hcl h0]
    exact ⟨hj, hltj⟩
  · intro h self c hc
    by_cases hset : mask.getLsbD c = true
    · obtain ⟨hlt, h16⟩ := h c hset
      rw [if_pos hset]
      exact (hcount self c).1 ⟨h16, c, hlt, hset, rfl, Nat.mod_eq_of_lt (by omega)⟩
    · rw [if_neg hset]
      refine (hcount self c).2 fun ⟨_, i, _, hi, hcl, h0⟩ => hset ?_
      obtain ⟨-, h16⟩ := h i hi
      rw [Nat.mod_eq_of_lt (by omega)] at h0
      rwa [← hsame i c (hmask i hi) hc hcl h0]

end

/-! ## eight CPUs in one cluster -/

/-- CPU `i` is 0.0.0.`i` -/
def eightCpus : CpuIdMap 8 where
  map i := BitVec.ofNat 64 (i % 8)
  masked i := by
    have hlt := Nat.mod_lt i (show 0 < 8 by decide)
    interval_cases i % 8 <;> decide
  inj i hi j hj h := by
    interval_cases i <;> interval_cases j <;> first | rfl | (revert h; decide)

theorem forall_bits {x : BitVec 32} {P : Nat → Prop} (h : ∀ i < 32, x.getLsbD i = true → P i) :
    ∀ i, x.getLsbD i = true → P i := by
  intro i hi
  refine h i ?_ hi
  by_contra hge
  rw [BitVec.getLsbD_of_ge x i (by omega)] at hi
  cases hi

/-- CPUs 0 to 3 -/
theorem armGicSgi_iff_low : SgiDelivered eightCpus 1 0xf :=
  (armGicSgi_iff eightCpus 1 0xf (forall_bits (by decide))).mpr (forall_bits (by decide))

/-- **CPU 4** is not interrupted: the loops end at `sizeof`. -/
theorem armGicSgi_fails : ¬ ∀ (cpus : Nat) (m : CpuIdMap cpus) (irq mask : BitVec 32),
    (∀ i, mask.getLsbD i = true → i < cpus) → SgiDelivered m irq mask := by
  intro h
  have hd := h 8 eightCpus 1 0x10 (forall_bits (by decide)) (affinity 0) 4 (by decide)
  revert hd
  decide

end LkHv.Gic
