import RiscvToolchain.Gcc.Bitmanip

/- The rotate-left patterns, under their final conditions.

   Correspondence (machine description ↔ Lean):
     `*rotlsi3`       ↔ `rotlsi3`
     `rotldi3`        ↔ `rotldi3`
     `rotlsi3_sext`   ↔ `rotlsi3Sext`
     the output block ↔ `rotlOutput`: a constant count is replaced by the width less
                        the count, and the rotate is to the right
   A register count is right whatever it holds: the instruction and the RTL both take
   it modulo the width. A constant is right from 1 to the width. Outside of that the
   difference is no immediate of the instruction (`leavesRtl_iff`). -/
namespace Gcc.Bitmanip
open Python

def rotateSource (w : Nat) : Rtx w :=
  .rotate (.matchOperand 1 .registerOperand) (.matchOperand 2 .arithOperand)

def rotlOutput (width : Nat) (ri r : Str) (ops : Operands) : Operands × Str :=
  if (ops 2).constIntP then (Function.update ops 2 (.imm (width - (ops 2).intval)), ri)
  else (ops, r)

def rotlsi3 : DefineInsn where
  width := 32
  src := rotateSource 32
  condition t _ := t.targetZbb || t.targetZbkb
  output t := rotlOutput 32
    (if t.target64bit then "roriw\t%0,%1,%2".toList else "rori\t%0,%1,%2".toList)
    (if t.target64bit then "rolw\t%0,%1,%2".toList else "rol\t%0,%1,%2".toList)

def rotldi3 : DefineInsn where
  width := 64
  src := rotateSource 64
  condition t _ := t.target64bit && (t.targetZbb || t.targetZbkb)
  output _ := rotlOutput 64 "rori\t%0,%1,%2".toList "rol\t%0,%1,%2".toList

def rotlsi3Sext : DefineInsn where
  width := 64
  src := .signExtend (rotateSource 32)
  condition t _ := t.target64bit && (t.targetZbb || t.targetZbkb)
  output _ := rotlOutput 32 "roriw\t%0,%1,%2".toList "rolw\t%0,%1,%2".toList

inductive Rotl where
  | rotlsi3
  | rotldi3
  | rotlsi3Sext
  deriving DecidableEq, Repr

def Rotl.insn : Rotl → DefineInsn
  | .rotlsi3 => Bitmanip.rotlsi3
  | .rotldi3 => Bitmanip.rotldi3
  | .rotlsi3Sext => Bitmanip.rotlsi3Sext

/-- The width of what is rotated. -/
def Rotl.width : Rotl → Nat
  | .rotldi3 => 64
  | _ => 32

/-- The counts of which the output makes an immediate, or none. -/
def CountInRange (w : Nat) : Arg → Prop
  | .imm c => 1 ≤ c ∧ c ≤ w
  | _ => True

/-! The two directions. -/

section Rotates
variable {w : Nat}

theorem rotateRight_sub (x : BitVec w) {c : Nat} (hc : 1 ≤ c) (hcw : c ≤ w) :
    x.rotateRight (w - c) = x.rotateLeft (c % w) := by
  apply BitVec.eq_of_getLsbD_eq
  intro i hi
  rw [BitVec.getLsbD_rotateRight, BitVec.getLsbD_rotateLeft, Nat.mod_mod]
  rcases Nat.lt_or_eq_of_le hcw with hlt | heq
  · rw [Nat.mod_eq_of_lt hlt, Nat.mod_eq_of_lt (show w - c < w by omega),
      show w - (w - c) = c by omega]
  · -- a whole turn: both counts are 0
    subst heq
    simp [hi]

/-- A count of 8 bits, modulo the width. -/
theorem ofInt_mod {c : Int} (hc : 1 ≤ c) (hcw : c ≤ w) (hw : w < 256) :
    (BitVec.ofInt 8 c).toNat % w = c.toNat % w := by
  rw [BitVec.toNat_ofInt]
  congr 1
  omega

theorem setWidth_mod {W : Nat} (y : BitVec W) (hw : w ∣ 2 ^ 8) :
    (y.setWidth 8).toNat % w = y.toNat % w := by
  rw [BitVec.toNat_setWidth, Nat.mod_mod_of_dvd _ hw]

end Rotates

/-! One pattern on one target. -/

/-- The three operands as the templates name them. -/
def threeOperands : List TArg := [.operand 0, .operand 1, .operand 2]

/-- The instructions of the output are rotates of the width `w`. -/
structure RotatesBy (p : DefineInsn) (t : Target) (w : Nat) (ri r : Str) (iop : IType)
    (rop : RType) : Prop where
  output : ∀ ops, p.output t ops = rotlOutput w ri r ops
  parse_ri : parseTemplate ri = some [(.i iop, threeOperands)]
  parse_r : parseTemplate r = some [(.r rop, threeOperands)]
  word_i : ¬ ((Mnemonic.i iop).isWord ∧ t.bits ≠ 64)
  word_r : ¬ ((Mnemonic.r rop).isWord ∧ t.bits ≠ 64)
  bound : iop.bound t.bits = w
  eval_i : ∀ (x : BitVec t.bits) n, iop.eval x n = ((x.setWidth w).rotateRight n).signExtend t.bits
  eval_r : ∀ (x y : BitVec t.bits),
    rop.eval x y = ((x.setWidth w).rotateLeft (y.toNat % w)).signExtend t.bits
  source : ∀ (ρ : RegFile t.bits) ops, (p.src.eval ρ ops).signExtend t.bits =
    (((ops 1).value ρ w).rotateLeft (((ops 2).value ρ 8).toNat % w)).signExtend t.bits

namespace RotatesBy
variable {p : DefineInsn} {t : Target} {w : Nat} {ri r : Str} {iop : IType} {rop : RType}
  {ops : Operands} {rd rs : RegNo}

theorem exec_imm (h : RotatesBy p t w ri r iop rop) (h0 : ops 0 = .reg rd) (h1 : ops 1 = .reg rs) {c : Int}
    (h2 : ops 2 = .imm c) (ρ : RegFile t.bits) :
    p.exec t ops ρ = if 1 ≤ c ∧ c ≤ w
      then some (Function.update ρ rd (iop.eval (ρ rs) (w - c.toNat))) else none := by
  have hout : p.output t ops = (Function.update ops 2 (.imm (w - c)), ri) := by
    rw [h.output, rotlOutput, h2]
    rfl
  have h0' : Function.update ops 2 (.imm (w - c)) 0 = .reg rd := h0
  have h1' : Function.update ops 2 (.imm (w - c)) 1 = .reg rs := h1
  have h2' : (TArg.operand 2).arg (Function.update ops 2 (.imm (w - c))) = .imm (w - c) := by
    rw [TArg.arg, Function.update_self]
  rw [exec_of_output hout h.parse_ri, threeOperands,
    execStatements_i h.word_i h0' (read_operand h1') h2', h.bound]
  by_cases hc : 1 ≤ c ∧ c ≤ w
  · rw [if_pos hc, if_pos (by omega), show ((w : Int) - c).toNat = w - c.toNat by omega]
  · rw [if_neg hc, if_neg (by omega)]

theorem exec_reg (h : RotatesBy p t w ri r iop rop) (h0 : ops 0 = .reg rd) (h1 : ops 1 = .reg rs) {rc : RegNo}
    (h2 : ops 2 = .reg rc) (ρ : RegFile t.bits) :
    p.exec t ops ρ = some (Function.update ρ rd (rop.eval (ρ rs) (ρ rc))) := by
  have hout : p.output t ops = (ops, r) := by
    rw [h.output, rotlOutput, h2]
    rfl
  rw [exec_of_output hout h.parse_r]
  exact execStatements_r h.word_r h0 (read_operand h1) (read_operand h2)

theorem leavesRtl_iff (h : RotatesBy p t w ri r iop rop) (hw : w ∣ 2 ^ 8) (hlt : w < 256)
    (hrd : Predicate.registerOperand.Admits (ops 0)) (hrs : Predicate.registerOperand.Admits (ops 1))
    (hcount : Predicate.arithOperand.Admits (ops 2)) :
    p.LeavesRtl t ops ↔ CountInRange w (ops 2) := by
  obtain ⟨rd, h0⟩ := admits_registerOperand hrd
  obtain ⟨rs, h1⟩ := admits_registerOperand hrs
  cases h2 : ops 2 with
  | zero =>
    rw [h2] at hcount
    exact hcount.elim
  | reg rc =>
    refine iff_of_true ?_ trivial
    intro ρ rd' h0'
    obtain rfl : rd = rd' := Arg.reg.inj (h0.symm.trans h0')
    rw [h.exec_reg h0 h1 h2, h.eval_r, h.source, h1, h2]
    simp only [Arg.value, setWidth_mod _ hw]
  | imm c =>
    by_cases hc : 1 ≤ c ∧ c ≤ w
    · refine iff_of_true ?_ hc
      intro ρ rd' h0'
      obtain rfl : rd = rd' := Arg.reg.inj (h0.symm.trans h0')
      rw [h.exec_imm h0 h1 h2, if_pos hc, h.eval_i, h.source, h1, h2]
      simp only [Arg.value, ofInt_mod hc.1 hc.2 hlt]
      rw [rotateRight_sub _ (by omega) (by omega)]
    · -- the text has no encoding, so nothing is executed
      refine iff_of_false ?_ hc
      intro hall
      have hexec := hall (fun _ => 0) rd h0
      rw [h.exec_imm h0 h1 h2, if_neg hc] at hexec
      cases hexec

end RotatesBy

/-! The three patterns. -/

theorem rori_eval {W : Nat} (x : BitVec W) (n : Nat) :
    IType.rori.eval x n = ((x.setWidth W).rotateRight n).signExtend W := by
  rw [BitVec.setWidth_eq, BitVec.signExtend_eq]
  rfl

theorem rol_eval {W : Nat} (x y : BitVec W) :
    RType.rol.eval x y = ((x.setWidth W).rotateLeft (y.toNat % W)).signExtend W := by
  rw [BitVec.setWidth_eq, BitVec.signExtend_eq]
  rfl

theorem rotlsi3_rotatesBy32 {t : Target} (h : t.target64bit = false) :
    RotatesBy rotlsi3 t 32 "rori\t%0,%1,%2".toList "rol\t%0,%1,%2".toList .rori .rol := by
  obtain ⟨b, zbb, zbkb, zbpbo⟩ := t
  obtain rfl : b = false := h
  exact { output := fun _ => rfl, parse_ri := by decide, parse_r := by decide,
          word_i := by simp [Mnemonic.isWord], word_r := by simp [Mnemonic.isWord], bound := rfl,
          eval_i := rori_eval, eval_r := rol_eval, source := fun _ _ => rfl }

theorem rotlsi3_rotatesBy64 {t : Target} (h : t.target64bit = true) :
    RotatesBy rotlsi3 t 32 "roriw\t%0,%1,%2".toList "rolw\t%0,%1,%2".toList .roriw .rolw := by
  obtain ⟨b, zbb, zbkb, zbpbo⟩ := t
  obtain rfl : b = true := h
  exact { output := fun _ => rfl, parse_ri := by decide, parse_r := by decide,
          word_i := by simp [Target.bits], word_r := by simp [Target.bits], bound := rfl,
          eval_i := fun _ _ => rfl, eval_r := fun _ _ => rfl, source := fun _ _ => rfl }

theorem rotldi3_rotatesBy {t : Target} (h : t.target64bit = true) :
    RotatesBy rotldi3 t 64 "rori\t%0,%1,%2".toList "rol\t%0,%1,%2".toList .rori .rol := by
  obtain ⟨b, zbb, zbkb, zbpbo⟩ := t
  obtain rfl : b = true := h
  exact { output := fun _ => rfl, parse_ri := by decide, parse_r := by decide,
          word_i := by simp [Target.bits], word_r := by simp [Target.bits], bound := rfl,
          eval_i := rori_eval, eval_r := rol_eval, source := fun _ _ => rfl }

theorem rotlsi3Sext_rotatesBy {t : Target} (h : t.target64bit = true) :
    RotatesBy rotlsi3Sext t 32 "roriw\t%0,%1,%2".toList "rolw\t%0,%1,%2".toList .roriw .rolw := by
  obtain ⟨b, zbb, zbkb, zbpbo⟩ := t
  obtain rfl : b = true := h
  -- a sign-extended word is extended once more to the register it fills
  exact { output := fun _ => rfl, parse_ri := by decide, parse_r := by decide,
          word_i := by simp [Target.bits], word_r := by simp [Target.bits], bound := rfl,
          eval_i := fun _ _ => rfl, eval_r := fun _ _ => rfl,
          source := fun _ _ => BitVec.signExtend_eq _ }

theorem rotl_rotatesBy (p : Rotl) {t : Target} {ops : Operands}
    (hc : p.insn.condition t ops = true) :
    ∃ ri r iop rop, RotatesBy p.insn t p.width ri r iop rop := by
  cases p with
  | rotlsi3 =>
    cases hb : t.target64bit with
    | false => exact ⟨_, _, _, _, rotlsi3_rotatesBy32 hb⟩
    | true => exact ⟨_, _, _, _, rotlsi3_rotatesBy64 hb⟩
  | rotldi3 => exact ⟨_, _, _, _, rotldi3_rotatesBy (Bool.and_eq_true_iff.mp hc).1⟩
  | rotlsi3Sext => exact ⟨_, _, _, _, rotlsi3Sext_rotatesBy (Bool.and_eq_true_iff.mp hc).1⟩

theorem rotl_admits {p : Rotl} {ops : Operands} (h : p.insn.src.Admits ops) :
    Predicate.registerOperand.Admits (ops 1) ∧ Predicate.arithOperand.Admits (ops 2) := by
  cases p <;> exact h

/-- Enabled and matched, a rotate computes its RTL exactly for the counts in range. -/
theorem rotl_leavesRtl_iff (p : Rotl) (t : Target) (ops : Operands) (hm : p.insn.Matches t ops) :
    p.insn.LeavesRtl t ops ↔ CountInRange p.width (ops 2) := by
  obtain ⟨hc, hrd, hsrc⟩ := hm
  obtain ⟨hrs, hcount⟩ := rotl_admits hsrc
  obtain ⟨ri, r, iop, rop, h⟩ := rotl_rotatesBy p hc
  have hw : p.width ∣ 2 ^ 8 ∧ p.width < 256 := by cases p <;> decide
  exact h.leavesRtl_iff hw.1 hw.2 hrd hrs hcount

def rv64Zbb : Target := ⟨true, true, false, false⟩

/-- `a0 = a1` rotated left by the count. -/
def rotateOperands (count : Arg) : Operands
  | 0 => .reg 10
  | 1 => .reg 11
  | _ => count

theorem rotl_leavesRtl_seven : Rotl.rotlsi3.insn.Matches rv64Zbb (rotateOperands (.imm 7)) ∧
    (Rotl.rotlsi3.insn.LeavesRtl rv64Zbb (rotateOperands (.imm 7)) ↔ CountInRange 32 (.imm 7)) :=
  have hm : Rotl.rotlsi3.insn.Matches rv64Zbb (rotateOperands (.imm 7)) :=
    ⟨rfl, trivial, trivial, by decide, by decide⟩
  ⟨hm, rotl_leavesRtl_iff .rotlsi3 rv64Zbb _ hm⟩

/-- A rotate by 0 is `roriw a0,a1,32`, which has no encoding. -/
theorem not_rotl_implements : ¬ ∀ p : Rotl, p.insn.Implements := by
  intro h
  have hm : Rotl.rotlsi3.insn.Matches rv64Zbb (rotateOperands (.imm 0)) :=
    ⟨rfl, trivial, trivial, by decide, by decide⟩
  have hexec := h .rotlsi3 rv64Zbb _ hm (fun _ => 0) 10 rfl
  have h0 : rotateOperands (.imm 0) 0 = .reg 10 := rfl
  have h1 : rotateOperands (.imm 0) 1 = .reg 11 := rfl
  have h2 : rotateOperands (.imm 0) 2 = .imm 0 := rfl
  have hnone := (rotlsi3_rotatesBy64 (t := rv64Zbb) rfl).exec_imm h0 h1 h2 (fun _ => 0)
  rw [if_neg (by decide)] at hnone
  rw [show Rotl.rotlsi3.insn = rotlsi3 from rfl, hnone] at hexec
  cases hexec

end Gcc.Bitmanip
