import RiscvToolchain.Semantics.ByteLanes

/- The two NUL-byte tests of `patch/riscv-newlib.patch`, each in its two forms.

   Correspondence (C and assembly ↔ Lean):
     `__libc_detect_null`, `__riscv_zbb`        ↔ `libcDetectNullZbb`
     `__libc_detect_null`, portable             ↔ `libcDetectNull`, `detectNullMask`
     `check_one_word`, `__riscv_zbb`            ↔ `checkOneWordZbb`
     `check_one_word`, with `a5` the mask       ↔ `checkOneWord`, `strcmpMask`
     `t2`                                       ↔ `t2`, -1 as `strcmp` sets it
     `orc.b`                                    ↔ `orcB`, byte by byte
   `unsigned long` and a register have `Xlen.bits` bits. Every form is computed byte by
   byte: the addition of the mask form carries out of no byte, since the mask and what it
   leaves of a byte are at most 127 each. -/
namespace Newlib
open Semantics

inductive Xlen where
  | rv32
  | rv64
  deriving DecidableEq, Repr

def Xlen.bits : Xlen → Nat
  | .rv32 => 32
  | .rv64 => 64

/-- `sizeof (long)`, and `SZREG`. -/
def Xlen.bytes : Xlen → Nat
  | .rv32 => 4
  | .rv64 => 8

/-- Each byte: all ones where it is not zero. -/
def orcB {W : Nat} (x : BitVec W) : BitVec W :=
  ofLanes fun i => if lane x i = 0#8 then 0#8 else 0xff#8

/-! The code. -/

section Code
variable {xlen : Xlen}

def libcDetectNullZbb (w : BitVec xlen.bits) : BitVec xlen.bits :=
  let w := orcB w
  if ~~~w ≠ 0 then 1 else 0

def detectNullMask (xlen : Xlen) : BitVec xlen.bits :=
  let mask := 0x7f7f7f7f
  if xlen.bytes = 8 then ((mask <<< 16) <<< 16) ||| mask else mask

def libcDetectNull (w : BitVec xlen.bits) : BitVec xlen.bits :=
  let mask := detectNullMask xlen
  ~~~(((w &&& mask) + mask) ||| w ||| mask)

def checkOneWordZbb (a2 : BitVec xlen.bits) : BitVec xlen.bits :=
  let t0 := orcB a2
  t0

/-- `a5`: `li a5, 0x7f7f7f7f`, or the doubleword at `mask`. -/
def strcmpMask : (xlen : Xlen) → BitVec xlen.bits
  | .rv32 => 0x7f7f7f7f#32
  | .rv64 => 0x7f7f7f7f7f7f7f7f#64

def checkOneWord (a2 : BitVec xlen.bits) : BitVec xlen.bits :=
  let a5 := strcmpMask xlen
  let t0 := a2 &&& a5
  let t1 := a2 ||| a5
  let t0 := t0 + a5
  t0 ||| t1

def t2 (xlen : Xlen) : BitVec xlen.bits := -1

end Code

/-! The masks, byte by byte. -/

/-- The bytes of a register. -/
def HasNul {xlen : Xlen} (w : BitVec xlen.bits) : Prop := ∃ i, i < xlen.bytes ∧ lane w i = 0#8

section Bytes
variable {xlen : Xlen}

theorem eight_dvd_bits (xlen : Xlen) : 8 ∣ xlen.bits := by cases xlen <;> decide

theorem bits_div (xlen : Xlen) : xlen.bits / 8 = xlen.bytes := by cases xlen <;> rfl

theorem detectNullMask_eq (xlen : Xlen) : detectNullMask xlen = strcmpMask xlen := by
  cases xlen <;> decide

theorem lane_strcmpMask {i : Nat} (hi : i < xlen.bytes) : lane (strcmpMask xlen) i = 0x7f#8 := by
  have h : ∀ i : Fin xlen.bytes, lane (strcmpMask xlen) i = 0x7f#8 := by cases xlen <;> decide
  exact h ⟨i, hi⟩

theorem t2_eq (xlen : Xlen) : t2 xlen = ~~~0#(xlen.bits) := by cases xlen <;> decide

/-- `((b & 0x7f) + 0x7f) | b | 0x7f` in one byte. -/
theorem byte_test (b : BitVec 8) :
    (b &&& 0x7f#8) + 0x7f#8 ||| b ||| 0x7f#8 = if b = 0#8 then 0x7f#8 else 0xff#8 := by
  revert b
  decide

theorem byte_sum_lt (b : BitVec 8) : (b &&& 0x7f#8).toNat + (0x7f#8).toNat < 2 ^ 8 := by
  have h : (b &&& 0x7f#8).toNat ≤ (0x7f#8).toNat := Nat.and_le_right
  have h127 : (0x7f#8).toNat = 127 := rfl
  omega

/-- The word of either mask form, before it is compared: 0xff in a byte that is not zero. -/
theorem lane_maskTest (w : BitVec xlen.bits) {i : Nat} (hi : i < xlen.bytes) :
    lane ((w &&& strcmpMask xlen) + strcmpMask xlen ||| w ||| strcmpMask xlen) i =
      if lane w i = 0#8 then 0x7f#8 else 0xff#8 := by
  rw [lane_or, lane_or, lane_strcmpMask hi, lane_add (by rwa [bits_div]), lane_and,
    lane_strcmpMask hi, byte_test]
  intro j hj
  rw [lane_and, lane_strcmpMask (by omega)]
  exact byte_sum_lt (lane w j)

theorem lane_orcB (w : BitVec xlen.bits) {i : Nat} (hi : i < xlen.bytes) :
    lane (orcB w) i = if lane w i = 0#8 then 0#8 else 0xff#8 :=
  lane_ofLanes (eight_dvd_bits xlen) _ (by rwa [bits_div])

/-- A word that is 0xff in every byte but the zero ones is not all ones exactly where `w` has
    a zero byte, whatever else stands in the bytes of `w` that are zero. -/
theorem not_ne_zero_iff {w x : BitVec xlen.bits} {z : BitVec 8} (hz : z ≠ 0xff#8)
    (hx : ∀ i, i < xlen.bytes → lane x i = if lane w i = 0#8 then z else 0xff#8) :
    ~~~x ≠ 0 ↔ HasNul w := by
  have hall : ~~~x = 0 ↔ ∀ i, i < xlen.bytes → lane w i ≠ 0#8 := by
    rw [show (0 : BitVec xlen.bits) = 0#_ from rfl, eq_zero_iff (eight_dvd_bits xlen), bits_div]
    refine forall_congr' fun i => forall_congr' fun hi => ?_
    rw [lane_not x (by rwa [bits_div]), hx i hi]
    by_cases h : lane w i = 0#8
    · have hne : ~~~z ≠ 0#8 := by
        intro h0
        exact hz (by rw [← BitVec.not_not (b := z), h0]; rfl)
      simp [h, hne]
    · simp [h]
  rw [Ne, hall, HasNul]
  simp

theorem ne_t2_iff (x : BitVec xlen.bits) : x ≠ t2 xlen ↔ ~~~x ≠ 0 := by
  have h : ~~~x = 0#(xlen.bits) ↔ ~~~0#(xlen.bits) = x := BitVec.not_eq_comm.trans eq_comm
  rw [t2_eq]
  exact not_congr (eq_comm.trans h.symm)

end Bytes

/-- On either register width and for every word, each form finds a NUL byte exactly where there
    is one. -/
theorem detectNull_agree (xlen : Xlen) (w : BitVec xlen.bits) :
    (libcDetectNullZbb w ≠ 0 ↔ libcDetectNull w ≠ 0) ∧ (libcDetectNull w ≠ 0 ↔ HasNul w) ∧
    (checkOneWordZbb w ≠ t2 xlen ↔ checkOneWord w ≠ t2 xlen) ∧
    (checkOneWord w ≠ t2 xlen ↔ HasNul w) := by
  have horc : ~~~orcB w ≠ 0 ↔ HasNul w := not_ne_zero_iff (by decide) fun i hi => lane_orcB w hi
  have hmask := not_ne_zero_iff (by decide) fun i hi => lane_maskTest w hi
  have hzbb : libcDetectNullZbb w ≠ 0 ↔ HasNul w := by
    rw [← horc, libcDetectNullZbb]
    have hone : (1 : BitVec xlen.bits) ≠ 0 := by cases xlen <;> decide
    by_cases h : ~~~orcB w = 0
    · simp only [h, ne_eq, not_true_eq_false, if_false]
    · simp only [h, ne_eq, not_false_eq_true, if_true, hone]
  have hportable : libcDetectNull w ≠ 0 ↔ HasNul w := by
    rw [libcDetectNull, detectNullMask_eq]
    exact hmask
  have hword : checkOneWord w ≠ t2 xlen ↔ HasNul w := by
    rw [ne_t2_iff, ← hmask, checkOneWord, BitVec.or_assoc]
  exact ⟨hzbb.trans hportable.symm, hportable,
    ((ne_t2_iff _).trans horc).trans hword.symm, hword⟩

end Newlib
