import RiscvToolchain.Gcc.Rtl
import RiscvToolchain.Python.Str

/- The `*<optab>si3` pattern for `any_div` in SImode, after the patch.

   Correspondence (machine description and C ↔ Lean):
     `any_div`, `<insn>`             ↔ `AnyDiv`, `AnyDiv.insn`
     the output template             ↔ `template`
     `ADD_NOP_FOR_CB_0001_ERRATUM`   ↔ `addNopForCb0001Erratum`
     one line of the template        ↔ `outputLine`: `%i2` prints nothing for a
                                       register, and the template names no `w`
     `div`, `divu`, `rem`, `remu`    ↔ `AnyDiv.eval` at the width of a register, by
                                       the M extension: no trap, -1 or the dividend
                                       for the divisor 0, and INT_MIN / -1 wraps
   The SImode result is `AnyDiv.eval` at 32 bits, and its form in a register is the
   sign extension (`canonical`). On RV32 the instruction is that operation. On RV64
   it divides all 64 bits, and its result is the canonical one exactly where
   `AnyDiv.ExactOn` says. -/
namespace Gcc
open Python

inductive AnyDiv where
  | div
  | udiv
  | mod
  | umod
  deriving DecidableEq, Repr

def AnyDiv.insn : AnyDiv → Str
  | .div => "div".toList
  | .udiv => "divu".toList
  | .mod => "rem".toList
  | .umod => "remu".toList

/-- `("nop\n\t" out_template + (TARGET_CB_ERRATUM_0001 ? 0 : 5))`. -/
def addNopForCb0001Erratum (targetCbErratum0001 : Bool) (outTemplate : Str) : Str :=
  ("nop\n\t".toList ++ outTemplate).drop (if targetCbErratum0001 then 0 else 5)

def template (targetCbErratum0001 : Bool) (op : AnyDiv) : Str :=
  addNopForCb0001Erratum targetCbErratum0001 (op.insn ++ "%i2\t%0,%1,%2".toList)

/-! The instructions the template stands for. -/

inductive AsmInsn where
  | nop
  | arith (op : AnyDiv)
  deriving DecidableEq, Repr

/-- One line: the mnemonic, with `%i2` printed for a register, and the operands. -/
def outputLine (line : Str) : Option AsmInsn :=
  if line = "nop".toList then some .nop
  else [AnyDiv.div, .udiv, .mod, .umod].findSome? fun op =>
    if line = op.insn ++ "%i2\t%0,%1,%2".toList then some (.arith op) else none

def asmInsns (template : Str) : Option (List AsmInsn) :=
  (split '\n' template).mapM fun line => outputLine (lstrip line)

section Execution
variable {w W : Nat}

/-- The M extension at register width `w`. -/
def AnyDiv.eval (op : AnyDiv) (a b : BitVec w) : BitVec w :=
  match op with
  | .div => if b = 0#w then -1#w else a.sdiv b
  | .udiv => if b = 0#w then -1#w else a / b
  | .mod => if b = 0#w then a else a.srem b
  | .umod => if b = 0#w then a else a % b

def AsmInsn.exec (rd rs1 rs2 : RegNo) (ρ : RegFile W) : AsmInsn → RegFile W
  | .nop => ρ
  | .arith op => Function.update ρ rd (op.eval (ρ rs1) (ρ rs2))

/-- The registers after the code of the template. -/
def execTemplate (targetCbErratum0001 : Bool) (op : AnyDiv) (rd rs1 rs2 : RegNo)
    (ρ : RegFile W) : Option (RegFile W) :=
  (asmInsns (template targetCbErratum0001 op)).map fun insns =>
    insns.foldl (AsmInsn.exec rd rs1 rs2) ρ

/-- An SImode value in a register. -/
def canonical (W : Nat) (x : BitVec 32) : BitVec W := x.signExtend W

/-- The operands on which the 64-bit instruction gives the canonical form of the SImode result. -/
def AnyDiv.ExactOn (op : AnyDiv) (a b : BitVec 32) : Prop :=
  match op with
  | .div => ¬ (a = BitVec.intMin 32 ∧ b = -1#32)
  | .mod => True
  | .udiv => a.toNat < 2 ^ 31 ∨ 2 ^ 31 ≤ b.toNat ∨ b.toNat ≤ 1
  | .umod => a.toNat < 2 ^ 31 ∨ 2 ^ 31 ≤ b.toNat ∨ b.toNat = 0 ∨ b.toNat ∣ 2 ^ 64 - 2 ^ 32

/-- The template is the one instruction, after a nop or alone. -/
theorem execTemplate_eq (erratum : Bool) (op : AnyDiv) (rd rs1 rs2 : RegNo) (ρ : RegFile W) :
    execTemplate erratum op rd rs1 rs2 ρ =
      some (Function.update ρ rd (op.eval (ρ rs1) (ρ rs2))) := by
  have h : asmInsns (template erratum op) =
      some (if erratum then [.nop, .arith op] else [.arith op]) := by
    cases erratum <;> cases op <;> decide
  rw [execTemplate, h]
  cases erratum <;> rfl

/-! The 64-bit instruction on sign-extended operands. -/

theorem canonical_toInt (x : BitVec 32) : (canonical 64 x).toInt = x.toInt :=
  BitVec.toInt_signExtend_of_le (by decide)

theorem canonical_toNat (x : BitVec 32) :
    (canonical 64 x).toNat = if x.toNat < 2 ^ 31 then x.toNat else x.toNat + (2 ^ 64 - 2 ^ 32) := by
  have hx := x.isLt
  rw [canonical, BitVec.toNat_signExtend, BitVec.toNat_setWidth, BitVec.msb_eq_decide]
  simp only [decide_eq_true_eq, Nat.reducePow, Nat.reduceSub]
  split <;> split <;> omega

theorem canonical_eq_zero_iff (b : BitVec 32) : canonical 64 b = 0#64 ↔ b = 0#32 := by
  rw [← BitVec.toInt_inj, canonical_toInt, ← BitVec.toInt_inj]
  rfl

theorem canonical_neg_one : canonical 64 (-1#32) = -1#64 := by decide

theorem canonical_ne_intMin (a : BitVec 32) : canonical 64 a ≠ BitVec.intMin 64 := by
  intro h
  have h := congrArg BitVec.toInt h
  have ha := BitVec.le_toInt a
  rw [canonical_toInt, BitVec.toInt_intMin_of_pos (by decide)] at h
  omega

theorem div_canonical_iff (a b : BitVec 32) :
    (canonical 64 a).sdiv (canonical 64 b) = canonical 64 (a.sdiv b) ↔
      ¬ (a = BitVec.intMin 32 ∧ b = -1#32) := by
  by_cases h : a = BitVec.intMin 32 ∧ b = -1#32
  · obtain ⟨rfl, rfl⟩ := h
    decide
  · have h32 := BitVec.toInt_sdiv_of_ne_or_ne a b (not_and_or.mp h)
    have h64 := BitVec.toInt_sdiv_of_ne_or_ne _ (canonical 64 b) (Or.inl (canonical_ne_intMin a))
    refine iff_of_true ?_ h
    rw [← BitVec.toInt_inj, h64, canonical_toInt, canonical_toInt, canonical_toInt, h32]

theorem mod_canonical (a b : BitVec 32) :
    (canonical 64 a).srem (canonical 64 b) = canonical 64 (a.srem b) := by
  rw [← BitVec.toInt_inj, canonical_toInt, BitVec.toInt_srem, BitVec.toInt_srem, canonical_toInt,
    canonical_toInt]

/-- The unsigned operations, on the values. A negative dividend is `2 ^ 64 - 2 ^ 32` larger as
    64 bits than as 32, a positive divisor is what it is, and only then the results part. -/
theorem udiv_canonical_iff (a b : BitVec 32) (hb : b ≠ 0#32) :
    canonical 64 a / canonical 64 b = canonical 64 (a / b) ↔
      a.toNat < 2 ^ 31 ∨ 2 ^ 31 ≤ b.toNat ∨ b.toNat ≤ 1 := by
  have hA := a.isLt
  have hB := b.isLt
  have hb0 : 0 < b.toNat := BitVec.toNat_pos_of_ne_zero hb
  rw [← BitVec.toNat_inj, BitVec.toNat_udiv, canonical_toNat, canonical_toNat, canonical_toNat,
    BitVec.toNat_udiv]
  generalize a.toNat = A at *
  generalize b.toNat = B at *
  by_cases ha : A < 2 ^ 31
  · -- the dividend is what it is, and so is the quotient
    have hq : A / B ≤ A := Nat.div_le_self _ _
    rw [if_pos ha, if_pos (show A / B < 2 ^ 31 by omega)]
    refine iff_of_true ?_ (Or.inl ha)
    by_cases hb : B < 2 ^ 31
    · rw [if_pos hb]
    · rw [if_neg hb, Nat.div_eq_of_lt (show A < B by omega), Nat.div_eq_of_lt (by omega)]
  · rw [if_neg ha]
    by_cases hb : B < 2 ^ 31
    · rw [if_pos hb]
      by_cases h1 : B = 1
      · rw [h1, Nat.div_one, Nat.div_one, if_neg ha]
        exact iff_of_true rfl (Or.inr (Or.inr (Nat.le_refl 1)))
      · -- the quotient fits in 31 bits, that of the larger dividend does not
        have hq : A / B < 2 ^ 31 := by
          have : A / B ≤ A / 2 := Nat.div_le_div_left (by omega) (by decide)
          omega
        rw [if_pos hq]
        refine iff_of_false ?_ (by omega)
        have hlt : A / B < (A + (2 ^ 64 - 2 ^ 32)) / B := by
          have := Nat.div_le_div_right (c := B) (show A + B ≤ A + (2 ^ 64 - 2 ^ 32) by omega)
          rw [Nat.add_div_right _ hb0] at this
          omega
        omega
    · -- both are larger by the same, and the quotient is 0 or 1
      rw [if_neg hb]
      refine iff_of_true ?_ (by omega)
      by_cases hlt : A < B
      · rw [Nat.div_eq_of_lt hlt, Nat.div_eq_of_lt (by omega)]
        rfl
      · rw [Nat.div_eq_of_lt_le (k := 1) (by omega) (by omega),
          Nat.div_eq_of_lt_le (k := 1) (by omega) (by omega)]
        rfl

theorem umod_canonical_iff (a b : BitVec 32) (hb : b ≠ 0#32) :
    canonical 64 a % canonical 64 b = canonical 64 (a % b) ↔
      a.toNat < 2 ^ 31 ∨ 2 ^ 31 ≤ b.toNat ∨ b.toNat ∣ 2 ^ 64 - 2 ^ 32 := by
  have hA := a.isLt
  have hB := b.isLt
  have hb0 : 0 < b.toNat := BitVec.toNat_pos_of_ne_zero hb
  rw [← BitVec.toNat_inj, BitVec.toNat_umod, canonical_toNat, canonical_toNat, canonical_toNat,
    BitVec.toNat_umod]
  generalize a.toNat = A at *
  generalize b.toNat = B at *
  have hr : A % B ≤ A := Nat.mod_le _ _
  have hrB : A % B < B := Nat.mod_lt _ hb0
  by_cases ha : A < 2 ^ 31
  · rw [if_pos ha, if_pos (show A % B < 2 ^ 31 by omega)]
    refine iff_of_true ?_ (Or.inl ha)
    by_cases hb : B < 2 ^ 31
    · rw [if_pos hb]
    · rw [if_neg hb, Nat.mod_eq_of_lt (show A < B by omega), Nat.mod_eq_of_lt (by omega)]
  · rw [if_neg ha]
    by_cases hb : B < 2 ^ 31
    · rw [if_pos hb, if_pos (show A % B < 2 ^ 31 by omega)]
      -- the remainders agree where the divisor divides what was added
      refine (Nat.add_modEq_left_iff (n := B)).trans ?_
      constructor
      · intro h
        exact Or.inr (Or.inr h)
      · intro h'
        rcases h' with h | h | h
        · exact absurd h ha
        · exact absurd hb (Nat.not_lt.mpr h)
        · exact h
    · -- the dividend itself, or what is left after one subtraction
      rw [if_neg hb]
      refine iff_of_true ?_ (by omega)
      by_cases hlt : A < B
      · rw [Nat.mod_eq_of_lt hlt, Nat.mod_eq_of_lt (by omega), if_neg ha]
      · rw [Nat.mod_eq_sub_mod (by omega), Nat.mod_eq_of_lt (by omega),
          Nat.mod_eq_sub_mod (show B ≤ A by omega), Nat.mod_eq_of_lt (show A - B < B by omega),
          if_pos (by omega)]
        omega

theorem eval_canonical_iff (op : AnyDiv) (a b : BitVec 32) :
    op.eval (canonical 64 a) (canonical 64 b) = canonical 64 (op.eval a b) ↔ op.ExactOn a b := by
  by_cases hb : b = 0#32
  · -- no operation divides: -1 or the dividend, both canonical
    subst hb
    have hz : canonical 64 0#32 = 0#64 := (canonical_eq_zero_iff 0#32).mpr rfl
    cases op with
    | div => simpa [AnyDiv.eval, hz, AnyDiv.ExactOn] using canonical_neg_one.symm
    | udiv => simpa [AnyDiv.eval, hz, AnyDiv.ExactOn] using canonical_neg_one.symm
    | mod => simp [AnyDiv.eval, hz, AnyDiv.ExactOn]
    | umod => simp [AnyDiv.eval, hz, AnyDiv.ExactOn]
  · have hb64 : canonical 64 b ≠ 0#64 := fun h => hb ((canonical_eq_zero_iff b).mp h)
    cases op with
    | div =>
      simp only [AnyDiv.eval, if_neg hb, if_neg hb64]
      exact div_canonical_iff a b
    | udiv =>
      simp only [AnyDiv.eval, if_neg hb, if_neg hb64]
      exact udiv_canonical_iff a b hb
    | mod =>
      simp only [AnyDiv.eval, if_neg hb, if_neg hb64]
      exact iff_of_true (mod_canonical a b) trivial
    | umod =>
      simp only [AnyDiv.eval, if_neg hb, if_neg hb64]
      refine (umod_canonical_iff a b hb).trans ?_
      have h0 : b.toNat ≠ 0 := fun h => hb (BitVec.eq_of_toNat_eq h)
      simp [AnyDiv.ExactOn, h0]

/-- On either width, with the nop or without: the destination holds the canonical form of the
    SImode result. -/
def DivSiExact (W : Nat) (erratum : Bool) (op : AnyDiv) (a b : BitVec 32) : Prop :=
  ∀ (ρ : RegFile W) (rd rs1 rs2 : RegNo), ρ rs1 = canonical W a → ρ rs2 = canonical W b →
    ∃ ρ', execTemplate erratum op rd rs1 rs2 ρ = some ρ' ∧ ρ' rd = canonical W (op.eval a b)

theorem divSi_exact_iff_eval (W : Nat) (erratum : Bool) (op : AnyDiv) (a b : BitVec 32) :
    DivSiExact W erratum op a b ↔
      op.eval (canonical W a) (canonical W b) = canonical W (op.eval a b) := by
  constructor
  · intro h
    obtain ⟨ρ', hρ', hrd⟩ := h (fun r => if r = 0 then canonical W a else canonical W b) 2 0 1 rfl rfl
    rw [execTemplate_eq] at hρ'
    cases hρ'
    simpa using hrd
  · intro h ρ rd rs1 rs2 h1 h2
    refine ⟨_, execTemplate_eq erratum op rd rs1 rs2 ρ, ?_⟩
    rw [Function.update_self, h1, h2, h]

theorem divSi_exact_iff {W : Nat} (hW : W = 32 ∨ W = 64) (erratum : Bool) (op : AnyDiv)
    (a b : BitVec 32) : DivSiExact W erratum op a b ↔ W = 32 ∨ op.ExactOn a b := by
  rw [divSi_exact_iff_eval]
  rcases hW with rfl | rfl
  · refine iff_of_true ?_ (Or.inl rfl)
    simp only [canonical, BitVec.signExtend_eq]
  · rw [eval_canonical_iff]
    simp

theorem divSi_exact_umod_three :
    DivSiExact 64 true .umod 0x80000000#32 3#32 :=
  (divSi_exact_iff (Or.inr rfl) true .umod _ _).mpr (Or.inr (by simp [AnyDiv.ExactOn]))

/-- `0x80000000 / 2` unsigned on RV64: `divu` gives `0x7fffffffc0000000`. -/
theorem not_divSi_exact : ¬ DivSiExact 64 false .udiv 0x80000000#32 2#32 := by
  rw [divSi_exact_iff_eval]
  decide

end Execution

end Gcc
