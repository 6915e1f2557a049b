import Mathlib.Data.BitVec

/- The cost of a division by a constant: the function that estimates it, the table that
   holds it by powers of two, and the lookup in `expand_divmod`.

   Correspondence (C ↔ Lean):
     `HOST_WIDE_INT`                ↔ `Int`; the one negation that overflows is none
     `clz_hwi`, `floor_log2`        ↔ `clzHwi`, `floorLog2`, on the bits of the argument
     `cloudbear_div_by_const_cost`  ↔ `cloudbearDivByConstCost`
     `COSTS_N_INSNS`                ↔ `costsNInsns`
     `all.pow2[m]`                  ↔ `pow2`, 1 shifted left in a `HOST_WIDE_INT`
     `set_src_cost` of `div_const`  ↔ `setSrcCost`, for the cores that use the function
     `init_expmed_one_mode`         ↔ `initExpmedOneMode`: the entries it fills
     `div_const_cost`               ↔ a lookup in the table, none where it is not filled
     the lookup of `expand_divmod`  ↔ `divConstIndex`
   The function takes the absolute value of the divisor, the index does not: a negative
   divisor has all its upper bits set, and its index is 63. -/
namespace Gcc.DivConstCost

/-- An integer mode of the target. -/
structure IntMode where
  bits : Nat
  eight_le : 8 ≤ bits
  le_64 : bits ≤ 64

/-- A constant divisor, sign-extended from its mode, that reaches the lookup. -/
structure ConstDivisor (mode : IntMode) where
  intval : Int
  ge : -2 ^ (mode.bits - 1) ≤ intval
  lt : intval < 2 ^ (mode.bits - 1)
  ne_zero : intval ≠ 0
  ne_one : intval ≠ 1

/-! The code. -/

def negHwi (x : Int) : Option Int := if x = -2 ^ 63 then none else some (-x)

def clzHwi (x : Int) : Int := (BitVec.ofInt 64 x).clz.toNat

def floorLog2 (x : Int) : Int := if BitVec.ofInt 64 x = 0#64 then -1 else 63 - clzHwi x

def cloudbearDivByConstCost (mode : IntMode) (divisor : Int) : Option Int := do
  let divisor ← if divisor < 0 then negHwi divisor else some divisor
  let modeSz : Int := mode.bits
  let clzTarget := modeSz - (64 - clzHwi divisor)
  return max (clzTarget.tdiv 2) 3

def costsNInsns (n : Int) : Int := n * 4

def pow2 (m : Nat) : Int := (BitVec.twoPow 64 m).toInt

def setSrcCost (mode : IntMode) (divisor : Int) : Option Int :=
  (cloudbearDivByConstCost mode divisor).map costsNInsns

/-- The table of one mode, by the index. -/
abbrev Table := Int → Option Int

def setDivConstCost (table : Table) (bits : Nat) (cost : Option Int) : Table :=
  Function.update table bits cost

def initExpmedOneMode (mode : IntMode) : Table :=
  let table := setDivConstCost (fun _ => none) 0 (some 0)
  let n := min 64 mode.bits
  (List.range' 1 (n - 1)).foldl
    (fun table m => setDivConstCost table m (setSrcCost mode (pow2 m))) table

/-- `floor_log2 (INTVAL (op1))`. -/
def divConstIndex (op1 : Int) : Int := floorLog2 op1

/-- `max_cost` of `expand_divmod`. -/
def maxCost (mode : IntMode) (op1 : Int) : Option Int := initExpmedOneMode mode (divConstIndex op1)

/-- The index is one the table is filled at, for a power of two that costs what the divisor
    costs, and that cost is what the lookup finds. -/
def CachedCost (mode : IntMode) (d : Int) : Prop :=
  1 ≤ divConstIndex d ∧ divConstIndex d ≤ mode.bits - 1 ∧
  ∃ cost, cloudbearDivByConstCost mode (pow2 (divConstIndex d).toNat) = some cost ∧
    cloudbearDivByConstCost mode d = some cost ∧ maxCost mode d = some (costsNInsns cost)

/-! The table. -/

theorem foldl_setDivConstCost (mode : IntMode) (l : List Nat) (table : Table) (i : Nat) :
    l.foldl (fun table m => setDivConstCost table m (setSrcCost mode (pow2 m))) table i =
      if i ∈ l then setSrcCost mode (pow2 i) else table i := by
  induction l generalizing table with
  | nil => simp
  | cons m l ih =>
    rw [List.foldl_cons, ih]
    by_cases hl : i ∈ l
    · simp [hl]
    · by_cases hm : i = m
      · simp [hm, setDivConstCost]
      · have hne : (i : Int) ≠ m := by omega
        simp [hl, hm, setDivConstCost, hne]

/-- From 1 to the width less one the entry is the cost of the power of two. -/
theorem initExpmedOneMode_apply (mode : IntMode) {i : Nat} (h1 : 1 ≤ i) (h2 : i < mode.bits) :
    initExpmedOneMode mode i = setSrcCost mode (pow2 i) := by
  have hmem : i ∈ List.range' 1 (min 64 mode.bits - 1) := by
    have hle := mode.le_64
    rw [List.mem_range'_1]
    omega
  simp only [initExpmedOneMode, foldl_setDivConstCost, if_pos hmem]

/-! Logarithms. -/

theorem clzHwi_eq {x : Int} (h0 : 0 < x) (hx : x < 2 ^ 64) : clzHwi x = 63 - Nat.log2 x.toNat := by
  have htoNat : (BitVec.ofInt 64 x).toNat = x.toNat := by
    rw [BitVec.toNat_ofInt, Int.emod_eq_of_lt (by omega) (by exact_mod_cast hx)]
  have hne : BitVec.ofInt 64 x ≠ 0#64 := by
    intro h
    rw [h] at htoNat
    simp only [BitVec.toNat_zero] at htoNat
    omega
  have hle := BitVec.two_pow_sub_clz_le_toNat_of_ne_zero (by decide) hne
  have hlt := BitVec.toNat_lt_two_pow_sub_clz (x := BitVec.ofInt 64 x)
  have hclz : (BitVec.ofInt 64 x).clz.toNat < 64 := BitVec.clz_lt_iff_ne_zero.mpr hne
  rw [htoNat] at hle hlt
  have hlog : Nat.log2 x.toNat = 63 - (BitVec.ofInt 64 x).clz.toNat := by
    refine (Nat.log2_eq_iff (by omega)).mpr ⟨hle, ?_⟩
    rwa [show 63 - (BitVec.ofInt 64 x).clz.toNat + 1 = 64 - (BitVec.ofInt 64 x).clz.toNat by omega]
  rw [clzHwi, hlog]
  omega

theorem divConstIndex_eq {d : Int} (h0 : 0 < d) (hd : d < 2 ^ 64) :
    divConstIndex d = Nat.log2 d.toNat := by
  have hne : BitVec.ofInt 64 d ≠ 0#64 := by
    intro h
    have h := congrArg BitVec.toNat h
    rw [BitVec.toNat_ofInt, Int.emod_eq_of_lt (by omega) (by exact_mod_cast hd)] at h
    simp only [BitVec.toNat_zero] at h
    omega
  rw [divConstIndex, floorLog2, if_neg hne, clzHwi_eq h0 hd]
  omega

theorem pow2_eq {m : Nat} (hm : m < 63) : pow2 m = 2 ^ m := by
  have h : 2 ^ m < 2 ^ 63 := Nat.pow_lt_pow_right (by decide) hm
  rw [pow2, BitVec.toInt_twoPow]
  have h1 : ¬ 64 ≤ m := by omega
  have h2 : m + 1 ≠ 64 := by omega
  simp [h1, h2]

/-- The cost of a positive divisor is one of its logarithm. -/
theorem cloudbearDivByConstCost_of_pos (mode : IntMode) {d : Int} (h0 : 0 < d) (hd : d < 2 ^ 64) :
    cloudbearDivByConstCost mode d =
      some (max (((mode.bits : Int) - (64 - (63 - Nat.log2 d.toNat))).tdiv 2) 3) := by
  rw [cloudbearDivByConstCost, if_neg (by omega)]
  simp only [Option.bind_eq_bind, Option.bind_some, clzHwi_eq h0 hd]
  rfl

/-! Both signs. -/

/-- The sign bit of a negative divisor is the leading bit of 64. -/
theorem divConstIndex_of_neg {d : Int} (h0 : d < 0) (hd : -2 ^ 63 ≤ d) : divConstIndex d = 63 := by
  have htoNat : ((BitVec.ofInt 64 d).toNat : Int) = d + 2 ^ 64 := by
    rw [BitVec.toNat_ofInt]
    omega
  have hne : BitVec.ofInt 64 d ≠ 0#64 := by
    intro h
    rw [h] at htoNat
    simp only [BitVec.toNat_zero] at htoNat
    omega
  have hclz : (BitVec.ofInt 64 d).clz.toNat = 0 := by
    rw [BitVec.clz_eq_zero_iff (by decide)]
    omega
  rw [divConstIndex, floorLog2, if_neg hne, clzHwi, hclz]
  rfl

theorem cloudbearDivByConstCost_pow2_63 (mode : IntMode) :
    cloudbearDivByConstCost mode (pow2 63) = none := by
  rw [cloudbearDivByConstCost, show pow2 63 = -2 ^ 63 by decide]
  rfl

theorem cachedCost_of_pos {mode : IntMode} (d : ConstDivisor mode) (h : 0 < d.intval) :
    CachedCost mode d.intval := by
  have hbits := mode.eight_le
  have hle64 := mode.le_64
  have h2 : 2 ≤ d.intval := by
    have := d.ne_one
    omega
  have hlt := d.lt
  have hpow : (2 : Int) ^ (mode.bits - 1) ≤ 2 ^ 63 := by
    exact_mod_cast Nat.pow_le_pow_right (by decide) (show mode.bits - 1 ≤ 63 by omega)
  have hd : d.intval < 2 ^ 64 := by omega
  have hindex := divConstIndex_eq h hd
  generalize hi : Nat.log2 d.intval.toNat = i at *
  obtain ⟨hlow, hhigh⟩ := (Nat.log2_eq_iff (show d.intval.toNat ≠ 0 by omega)).mp hi
  -- the index is one of those the loop of `init_expmed_one_mode` sets
  have hi1 : 1 ≤ i := by
    by_contra hlt1
    obtain rfl : i = 0 := by omega
    simp only [Nat.zero_add, Nat.pow_one] at hhigh
    omega
  have hi2 : i < mode.bits - 1 := by
    have hnat : d.intval.toNat < 2 ^ (mode.bits - 1) := by
      rw [Int.toNat_lt (by omega)]
      exact_mod_cast hlt
    exact (Nat.pow_lt_pow_iff_right (by decide)).mp (Nat.lt_of_le_of_lt hlow hnat)
  have hcost := cloudbearDivByConstCost_of_pos mode h hd
  rw [hi] at hcost
  have hcost2 := cloudbearDivByConstCost_of_pos mode (d := 2 ^ i) (Int.pow_pos (by decide))
    (by exact_mod_cast Nat.pow_lt_pow_right (by decide) (show i < 64 by omega))
  -- the power of two at the index has the cost of the divisor
  rw [show ((2 : Int) ^ i).toNat = 2 ^ i by norm_cast, Nat.log2_two_pow] at hcost2
  rw [CachedCost, maxCost, hindex]
  refine ⟨by omega, by omega, _, ?_, hcost, ?_⟩
  · rw [Int.toNat_natCast, pow2_eq (by omega), hcost2]
  · rw [initExpmedOneMode_apply mode hi1 (by omega), setSrcCost, pow2_eq (by omega), hcost2]
    rfl

theorem not_cachedCost_of_neg {mode : IntMode} (d : ConstDivisor mode) (h : d.intval < 0) :
    ¬ CachedCost mode d.intval := by
  have hge := d.ge
  have hpow : (2 : Int) ^ (mode.bits - 1) ≤ 2 ^ 63 := by
    have hle := mode.le_64
    exact_mod_cast Nat.pow_le_pow_right (by decide) (show mode.bits - 1 ≤ 63 by omega)
  intro ⟨_, _, cost, hcost, _⟩
  -- only 64 bits have an entry at 63, and its power of two cannot be negated
  rw [divConstIndex_of_neg h (by omega), show (63 : Int).toNat = 63 from rfl,
    cloudbearDivByConstCost_pow2_63] at hcost
  cases hcost

def simode : IntMode := ⟨32, by decide, by decide⟩

end Gcc.DivConstCost
