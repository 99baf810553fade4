import Bigpipe.Proofs.Conservation

/-!
# `Bigpipe.Proofs.CalcPartition`: which partition a message goes to

`CalcPartition` takes the remainder of an unsigned number for a
message without a key, and of a signed one for a message with a key. A
remainder has the sign of the dividend.

The hash is 64 bits wide, and `int(hash)` keeps the lower half of it,
of which the highest bit becomes the sign. So half of all keys have a
negative dividend, and of these only the multiples of the number of
partitions get a partition that the topic has.

* `valid_of_empty`: without a key, the partition is one of the topic's
  for every draw.
* `calcPartition_bounds`: it is never off by a whole turn.
* `valid_iff`: with a key, the partition is one of the topic's exactly
  when the `int` that the hash narrows to is not negative, or is
  divided by the number of partitions.
-/

set_option autoImplicit false

namespace Bigpipe.KafkaProducer

variable {lib : Libraries} {rd : UInt32} {partitions : Int32} {partitionKey : String}

/-- A partition is found, and it is one of the topic's, which are
numbered from 0. -/
def Valid (partitions : Int32) (partition : Option Int32) : Prop :=
  ∃ p, partition = some p ∧ 0 ≤ p ∧ p < partitions

/-- The `int` that a hash narrows to, modulo `2 ^ 32`. `bmod` takes
the representative between `-2 ^ 31` and `2 ^ 31`. -/
def narrowed (hash : UInt64) : Int := (hash.toNat : Int).bmod (2 ^ 32)

/-! ### Remainders of machine integers -/

/-- A truncated remainder is negative exactly when the dividend is and
there is a rest. -/
theorem tmod_nonneg_iff {a b : Int} : 0 ≤ a.tmod b ↔ 0 ≤ a ∨ b ∣ a := by
  constructor
  · intro h
    rcases Int.le_total 0 a with ha | ha
    · exact .inl ha
    · -- The remainder of `-a` is not negative either, so there is no rest.
      have hneg : 0 ≤ (-a).tmod b := Int.tmod_nonneg b (by omega)
      rw [Int.neg_tmod] at hneg
      exact .inr (Int.dvd_of_tmod_eq_zero (by omega))
  · intro h
    rcases h with ha | hdvd
    · exact Int.tmod_nonneg b ha
    · rw [Int.tmod_eq_zero_of_dvd hdvd]

/-- The conversions of the source narrow modulo `2 ^ 32`. -/
theorem toInt_narrow (hash : UInt64) : hash.toUInt32.toInt32.toInt = narrowed hash := by
  show hash.toUInt32.toBitVec.toInt = _
  rw [BitVec.toInt_eq_toNat_bmod]
  have hlow : (hash.toUInt32.toBitVec.toNat : Int) = (hash.toNat : Int) % (2 ^ 32 : Nat) :=
    Int.natCast_emod hash.toNat (2 ^ 32)
  rw [hlow]
  exact Int.emod_bmod hash.toNat (2 ^ 32)

/-- A positive `int` converts to the same `unsigned int`. -/
theorem toNat_toUInt32 (h : 1 ≤ partitions) :
    (partitions.toUInt32.toNat : Int) = partitions.toInt := by
  have hle : (0 : Int32) ≤ partitions := by
    have : 1 ≤ partitions.toInt := Int32.le_iff_toInt_le.mp h
    rw [Int32.le_iff_toInt_le]
    show 0 ≤ partitions.toInt
    omega
  rw [Int32.toNat_toUInt32_of_le hle, Int32.cast_toNatClampNeg partitions hle]

/-- The unsigned remainder by a positive `int` converts back to the
same number. -/
theorem toInt_unsignedMod (h : 1 ≤ partitions) :
    (rd % partitions.toUInt32).toInt32.toInt = rd.toNat % partitions.toInt := by
  have hpos : 1 ≤ partitions.toInt := Int32.le_iff_toInt_le.mp h
  have hbound : partitions.toInt < 2 ^ 31 := partitions.toInt_lt
  have hsame : (partitions.toUInt32.toNat : Int) = partitions.toInt := toNat_toUInt32 h
  have hmod : ((rd % partitions.toUInt32).toNat : Int) = rd.toNat % partitions.toInt := by
    rw [UInt32.toNat_mod, Int.natCast_emod, hsame]
  have hlt : (rd.toNat : Int) % partitions.toInt < partitions.toInt :=
    Int.emod_lt_of_pos _ (by omega)
  show (rd % partitions.toUInt32).toBitVec.toInt = _
  rw [BitVec.toInt_eq_toNat_of_lt, UInt32.toNat_toBitVec, hmod]
  rw [UInt32.toNat_toBitVec]
  omega

/-! ### The two branches -/

/-- Without a key, the partition is the unsigned remainder of the
draw. -/
theorem calcPartition_of_empty (lib : Libraries) (rd : UInt32) (h : 1 ≤ partitions) :
    ∃ p, calcPartition lib rd partitions "" = some p ∧
      p.toInt = rd.toNat % partitions.toInt := by
  have hpos : 1 ≤ partitions.toInt := Int32.le_iff_toInt_le.mp h
  have hne : partitions.toUInt32 ≠ 0 := by
    intro hzero
    have hsame : (partitions.toUInt32.toNat : Int) = partitions.toInt := toNat_toUInt32 h
    rw [hzero] at hsame
    have : (0 : Int) = partitions.toInt := hsame
    omega
  refine ⟨(rd % partitions.toUInt32).toInt32, ?_, toInt_unsignedMod h⟩
  rw [calcPartition, if_pos rfl, if_neg hne]

/-- With a key, it is the signed remainder of what the hash narrows
to. -/
theorem calcPartition_of_key (lib : Libraries) (rd : UInt32) (h : 1 ≤ partitions)
    (hkey : partitionKey ≠ "") :
    ∃ p, calcPartition lib rd partitions partitionKey = some p ∧
      p.toInt = (narrowed (lib.hash partitionKey)).tmod partitions.toInt := by
  have hpos : 1 ≤ partitions.toInt := Int32.le_iff_toInt_le.mp h
  have htraps : ¬(partitions = 0 ∨
      (lib.hash partitionKey).toUInt32.toInt32 = Int32.minValue ∧ partitions = -1) := by
    rintro (rfl | ⟨-, rfl⟩)
    · exact absurd h (by decide)
    · exact absurd h (by decide)
  refine ⟨(lib.hash partitionKey).toUInt32.toInt32 % partitions, ?_, ?_⟩
  · rw [calcPartition, if_neg hkey]
    exact if_neg htraps
  · rw [Int32.toInt_mod, toInt_narrow]

/-! ### Valid partitions -/

/-- In terms of the number, a partition of the topic is one from `0`
on and below `partitions`. -/
theorem valid_some {p : Int32} :
    Valid partitions (some p) ↔ 0 ≤ p.toInt ∧ p.toInt < partitions.toInt := by
  constructor
  · rintro ⟨p', heq, hle, hlt⟩
    cases heq
    exact ⟨Int32.le_iff_toInt_le.mp hle, Int32.lt_iff_toInt_lt.mp hlt⟩
  · rintro ⟨hle, hlt⟩
    exact ⟨p, rfl, Int32.le_iff_toInt_le.mpr hle, Int32.lt_iff_toInt_lt.mpr hlt⟩

/-- Without a key, the partition is one of the topic's for every
draw. -/
theorem valid_of_empty (h : 1 ≤ partitions) :
    Valid partitions (calcPartition lib rd partitions "") := by
  have hpos : 1 ≤ partitions.toInt := Int32.le_iff_toInt_le.mp h
  obtain ⟨p, hp, hrest⟩ := calcPartition_of_empty lib rd h
  rw [hp, valid_some, hrest]
  exact ⟨Int.emod_nonneg _ (by omega), Int.emod_lt_of_pos _ (by omega)⟩

/-- With or without a key, the partition is less than `partitions`
away from `0`. So adding `partitions` once to a negative one would
have been enough. -/
theorem calcPartition_bounds (h : 1 ≤ partitions) {p : Int32}
    (hp : calcPartition lib rd partitions partitionKey = some p) :
    -partitions.toInt < p.toInt ∧ p.toInt < partitions.toInt := by
  have hpos : 0 < partitions.toInt := Int32.le_iff_toInt_le.mp h
  by_cases hkey : partitionKey = ""
  · subst hkey
    obtain ⟨p', hp', hrest⟩ := calcPartition_of_empty lib rd h
    cases hp.symm.trans hp'
    have hnonneg : 0 ≤ (rd.toNat : Int) % partitions.toInt := Int.emod_nonneg _ (by omega)
    have hlt : (rd.toNat : Int) % partitions.toInt < partitions.toInt := Int.emod_lt_of_pos _ hpos
    omega
  · obtain ⟨p', hp', hrest⟩ := calcPartition_of_key lib rd h hkey
    cases hp.symm.trans hp'
    rw [hrest]
    exact ⟨Int.lt_tmod_of_pos _ hpos, Int.tmod_lt_of_pos _ hpos⟩

/-- The partition is one of the topic's exactly when there is no key,
the `int` of the hash is not negative, or the number of partitions
divides it. It holds for every hash and every draw. A draw is
unsigned, and its remainder too, while that of a negative `int` is not
above 0. -/
theorem valid_iff (lib : Libraries) (rd : UInt32) (partitionKey : String) (h : 1 ≤ partitions) :
    Valid partitions (calcPartition lib rd partitions partitionKey) ↔
      partitionKey = "" ∨ 0 ≤ narrowed (lib.hash partitionKey) ∨
        partitions.toInt ∣ narrowed (lib.hash partitionKey) := by
  by_cases hkey : partitionKey = ""
  · subst hkey
    exact iff_of_true (valid_of_empty h) (.inl rfl)
  · have hpos : 0 < partitions.toInt := Int32.le_iff_toInt_le.mp h
    obtain ⟨p, hp, hrest⟩ := calcPartition_of_key lib rd h hkey
    have hlt : p.toInt < partitions.toInt := (calcPartition_bounds h hp).2
    rw [hp, valid_some, and_iff_left hlt, hrest, tmod_nonneg_iff, or_iff_right hkey]

/-! ### A key with a negative hash -/

/-- A library whose hash narrows to a negative `int` for every
string. -/
def negativeHash : Libraries where
  folly := compactFolly
  hash _ := 4993892634952068459

/-- With that hash, a topic with `3` partitions has one for the key,
since `3` divides the `int`. -/
theorem valid_iff_negativeHash :
    (1 : Int32) ≤ 3 ∧ Valid 3 (calcPartition negativeHash 0 3 "a") :=
  ⟨by decide, (valid_iff negativeHash 0 "a" (by decide)).mpr (.inr (.inr (by decide)))⟩

/-- With that hash, `CalcPartition` returns `-3` for a topic with `10`
partitions. -/
theorem negativePartition :
    calcPartition negativeHash 0 10 "a" = some (-3) ∧
      ¬∀ (lib : Libraries) (rd : UInt32) (partitions : Int32) (partitionKey : String),
        1 ≤ partitions → Valid partitions (calcPartition lib rd partitions partitionKey) := by
  have hnegative : calcPartition negativeHash 0 10 "a" = some (-3) := by decide
  refine ⟨hnegative, fun hall => ?_⟩
  obtain ⟨p, hp, hnonneg, -⟩ := hall negativeHash 0 10 "a" (by decide)
  cases hnegative.symm.trans hp
  exact absurd hnonneg (by decide)

end Bigpipe.KafkaProducer
