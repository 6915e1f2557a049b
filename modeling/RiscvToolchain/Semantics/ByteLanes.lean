import Mathlib.Data.BitVec

/- A machine word as a row of bytes: reading a byte (`lane`), building a word from its
   bytes (`ofLanes`), and the word operations byte by byte. A word whose width is a
   multiple of 8 is determined by its bytes, the bitwise operations act on each byte
   alone, and so does an addition that carries out of no byte (`lane_add`). -/
namespace Semantics

section ByteLanes
variable {W : Nat}

/-- Byte `i` of a word, counted from the low end. -/
def lane (x : BitVec W) (i : Nat) : BitVec 8 := x.extractLsb' (8 * i) 8

def lanesBelow (f : Nat → BitVec 8) : Nat → BitVec W
  | 0 => 0#W
  | n + 1 => lanesBelow f n ||| ((f n).setWidth W <<< (8 * n))

/-- The word whose bytes are `f`. -/
def ofLanes (f : Nat → BitVec 8) : BitVec W := lanesBelow f (W / 8)

theorem getLsbD_lane (x : BitVec W) (i : Nat) {j : Nat} (hj : j < 8) :
    (lane x i).getLsbD j = x.getLsbD (8 * i + j) := by
  simp [lane, hj]

theorem toNat_lane (x : BitVec W) (i : Nat) :
    (lane x i).toNat = x.toNat / 2 ^ (8 * i) % 2 ^ 8 := by
  rw [lane, BitVec.extractLsb'_toNat, Nat.shiftRight_eq_div_pow]

theorem getLsbD_lanesBelow_of_ge (f : Nat → BitVec 8) {n i : Nat} (hn : 8 * n ≤ i) :
    (lanesBelow f n : BitVec W).getLsbD i = false := by
  induction n with
  | zero => exact BitVec.getLsbD_zero
  | succ n ih =>
    have hge : 8 ≤ i - 8 * n := by omega
    rw [lanesBelow, BitVec.getLsbD_or, ih (by omega), BitVec.getLsbD_shiftLeft,
      BitVec.getLsbD_setWidth, BitVec.getLsbD_of_ge _ _ hge, Bool.and_false, Bool.and_false,
      Bool.or_false]

theorem getLsbD_lanesBelow (f : Nat → BitVec 8) {n i : Nat} (hi : i < W) (hn : i < 8 * n) :
    (lanesBelow f n : BitVec W).getLsbD i = (f (i / 8)).getLsbD (i % 8) := by
  induction n with
  | zero => omega
  | succ n ih =>
    have hsub : i - 8 * n < W := by omega
    rw [lanesBelow, BitVec.getLsbD_or, BitVec.getLsbD_shiftLeft, BitVec.getLsbD_setWidth]
    simp only [hi, hsub, decide_true, Bool.true_and]
    by_cases hlt : i < 8 * n
    · simp [ih hlt, hlt]
    · -- bit `i` is in the byte that is added, above every byte before it
      rw [getLsbD_lanesBelow_of_ge f (by omega), show i / 8 = n by omega,
        show i % 8 = i - 8 * n by omega]
      simp [hlt]

theorem getLsbD_ofLanes (hW : 8 ∣ W) (f : Nat → BitVec 8) {i : Nat} (hi : i < W) :
    (ofLanes f : BitVec W).getLsbD i = (f (i / 8)).getLsbD (i % 8) :=
  getLsbD_lanesBelow f hi (by omega)

theorem lane_ofLanes (hW : 8 ∣ W) (f : Nat → BitVec 8) {i : Nat} (hi : i < W / 8) :
    lane (ofLanes f : BitVec W) i = f i := by
  apply BitVec.eq_of_getLsbD_eq
  intro j hj
  rw [getLsbD_lane _ _ hj, getLsbD_ofLanes hW f (show 8 * i + j < W by omega),
    show (8 * i + j) / 8 = i by omega, show (8 * i + j) % 8 = j by omega]

/-- A word is its bytes. -/
theorem eq_of_lanes (hW : 8 ∣ W) {x y : BitVec W} (h : ∀ i, i < W / 8 → lane x i = lane y i) :
    x = y := by
  apply BitVec.eq_of_getLsbD_eq
  intro i hi
  have hlane := congrArg (fun b => b.getLsbD (i % 8)) (h (i / 8) (by omega))
  simp only [getLsbD_lane _ _ (show i % 8 < 8 by omega), show 8 * (i / 8) + i % 8 = i by omega]
    at hlane
  exact hlane

theorem lane_zero (i : Nat) : lane (0#W) i = 0#8 := by simp [lane]

theorem eq_zero_iff (hW : 8 ∣ W) {x : BitVec W} : x = 0#W ↔ ∀ i, i < W / 8 → lane x i = 0#8 := by
  constructor
  · intro h i _
    rw [h, lane_zero]
  · intro h
    apply eq_of_lanes hW
    intro i hi
    rw [h i hi, lane_zero]

theorem lane_and (x y : BitVec W) (i : Nat) : lane (x &&& y) i = lane x i &&& lane y i := by
  simp [lane, BitVec.extractLsb'_and]

theorem lane_or (x y : BitVec W) (i : Nat) : lane (x ||| y) i = lane x i ||| lane y i := by
  simp [lane, BitVec.extractLsb'_or]

theorem lane_not (x : BitVec W) {i : Nat} (hi : i < W / 8) : lane (~~~x) i = ~~~lane x i := by
  apply BitVec.eq_of_getLsbD_eq
  intro j hj
  have hlt : 8 * i + j < W := by omega
  rw [getLsbD_lane _ _ hj, BitVec.getLsbD_not, BitVec.getLsbD_not, getLsbD_lane _ _ hj]
  simp [hlt, hj]

/-- Where no byte overflows, nothing is carried into a byte. -/
theorem add_mod_lt {x y : BitVec W} {n : Nat}
    (h : ∀ i, i < n → (lane x i).toNat + (lane y i).toNat < 2 ^ 8) :
    x.toNat % 2 ^ (8 * n) + y.toNat % 2 ^ (8 * n) < 2 ^ (8 * n) := by
  induction n with
  | zero => simp [Nat.mod_one]
  | succ n ih =>
    have ih := ih (fun i hi => h i (by omega))
    have hn := h n (by omega)
    rw [toNat_lane, toNat_lane] at hn
    rw [Nat.mul_succ, Nat.pow_add, Nat.mod_mul, Nat.mod_mul]
    generalize x.toNat / 2 ^ (8 * n) % 2 ^ 8 = a at *
    generalize y.toNat / 2 ^ (8 * n) % 2 ^ 8 = b at *
    generalize x.toNat % 2 ^ (8 * n) = p at *
    generalize y.toNat % 2 ^ (8 * n) = q at *
    have hab : 2 ^ (8 * n) * (a + b) ≤ 2 ^ (8 * n) * 255 := Nat.mul_le_mul_left _ (by omega)
    rw [Nat.mul_add] at hab
    omega

theorem lane_add {x y : BitVec W} {i : Nat} (hi : i < W / 8)
    (h : ∀ j, j < i → (lane x j).toNat + (lane y j).toNat < 2 ^ 8) :
    lane (x + y) i = lane x i + lane y i := by
  have hcarry := add_mod_lt h
  apply BitVec.eq_of_toNat_eq
  have hpow : 2 ^ W = 2 ^ (8 * i) * 2 ^ (W - 8 * i) := by
    rw [← Nat.pow_add]
    congr 1
    omega
  have hdvd : 2 ^ 8 ∣ 2 ^ (W - 8 * i) := Nat.pow_dvd_pow 2 (by omega)
  rw [BitVec.toNat_add, toNat_lane, toNat_lane, toNat_lane, BitVec.toNat_add, hpow,
    Nat.mod_mul_right_div_self, Nat.mod_mod_of_dvd _ hdvd, Nat.add_div_eq_of_add_mod_lt hcarry,
    Nat.add_mod]

end ByteLanes

end Semantics
