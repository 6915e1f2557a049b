import RiscvToolchain.Semantics.Run

/- The RTL of one basic block after register allocation, as far as the CRC peepholes
   of `patch/riscv-gcc.patch` and their check look into it: an insn is one SET with
   CLOBBERs and USEs, and the block may hold notes and debug insns anywhere. The
   sources the check or the peepholes name are modelled; every other source (a load,
   an addition) is `other` and may give any value, as a CLOBBER may.

   The value of a register is a word of `W` bits, the register width. A result in SImode
   is written sign-extended, which is its form in a register of either width; on
   RV32 the extension does nothing. An execution is one in which every shift count is
   in range. -/
namespace Gcc
open Semantics

abbrev RegNo := Nat

abbrev RegFile (W : Nat) := RegNo → BitVec W

/-- An operand: a register, or something else (a memory operand, a subexpression). -/
inductive Operand where
  | reg (r : RegNo)
  | other (reads : List RegNo)
  deriving DecidableEq, Repr

/-- The modes of a shift: SImode, or the mode of a register. -/
inductive Mode where
  | si
  | x
  deriving DecidableEq, Repr

inductive ShiftCount where
  | const (n : Nat)
  | reg (r : RegNo)
  deriving DecidableEq, Repr

inductive Cmp where
  | eq
  | ne
  deriving DecidableEq, Repr

/-- An arm of a conditional. -/
inductive Arm where
  | zero
  | reg (r : RegNo)
  deriving DecidableEq, Repr

/-- The source of a SET. -/
inductive Src where
  /-- `(zero_extend:X x)` with `x` in HImode -/
  | zeroExtendHI (x : Operand)
  /-- `(lshiftrt:m x n)` -/
  | lshiftrt (m : Mode) (x : Operand) (n : ShiftCount)
  /-- `(zero_extend:DI (lshiftrt:SI x n))` -/
  | zeroExtendLshiftrt (x : Operand) (n : ShiftCount)
  /-- `(if_then_else:X (cmp r (const_int 0)) a b)` -/
  | ifThenElse (cmp : Cmp) (r : RegNo) (a b : Arm)
  | xor (x y : RegNo)
  /-- `(unspec [(xor:X x y)] UNSPEC_XBEAR_CRC_PEEPHOLE)` -/
  | unspecCrc (x y : RegNo)
  | other (reads : List RegNo)
  deriving DecidableEq, Repr

/-- The destination of a SET: a register, or memory at an address. -/
inductive Dest where
  | reg (r : RegNo)
  | other (reads : List RegNo)
  deriving DecidableEq, Repr

/-- The pattern of an insn: `single_set` is its SET. -/
structure Pattern where
  dest : Dest
  src : Src
  clobbers : List RegNo
  uses : List RegNo
  deriving DecidableEq, Repr

inductive Insn where
  | note
  | debug
  | insn (p : Pattern)
  deriving DecidableEq, Repr

/-- An insn that is a SET and nothing else. -/
def set (r : RegNo) (src : Src) : Pattern := ⟨.reg r, src, [], []⟩

/-! Reads and definitions. -/

def Operand.reads : Operand → List RegNo
  | .reg r => [r]
  | .other rs => rs

def ShiftCount.reads : ShiftCount → List RegNo
  | .const _ => []
  | .reg r => [r]

def Arm.reads : Arm → List RegNo
  | .zero => []
  | .reg r => [r]

def Src.reads : Src → List RegNo
  | .zeroExtendHI x => x.reads
  | .lshiftrt _ x n => x.reads ++ n.reads
  | .zeroExtendLshiftrt x n => x.reads ++ n.reads
  | .ifThenElse _ r a b => r :: (a.reads ++ b.reads)
  | .xor x y => [x, y]
  | .unspecCrc x y => [x, y]
  | .other rs => rs

def Dest.reads : Dest → List RegNo
  | .reg _ => []
  | .other rs => rs

def Pattern.reads (p : Pattern) : List RegNo := p.src.reads ++ (p.dest.reads ++ p.uses)

/-- `FOR_EACH_INSN_DEF`: the registers an insn defines. -/
def Pattern.defs (p : Pattern) : List RegNo :=
  match p.dest with
  | .reg r => r :: p.clobbers
  | .other _ => p.clobbers

/-- The insns of a list that are neither notes nor debug insns. -/
def realInsns (l : List Insn) : List Pattern :=
  l.filterMap fun
    | .insn p => some p
    | _ => none

/-! Execution. -/

section Execution
variable {W : Nat}

/-- `x` in the mode, shifted right by `n`, as it stands in a register. -/
def shiftRight (m : Mode) (x : BitVec W) (n : Nat) : BitVec W :=
  match m with
  | .si => (x.setWidth 32 >>> n).signExtend W
  | .x => x >>> n

def Mode.bits (W : Nat) : Mode → Nat
  | .si => 32
  | .x => W

def Operand.Evals (ρ : RegFile W) : Operand → BitVec W → Prop
  | .reg r, v => v = ρ r
  | .other _, _ => True

def ShiftCount.value (ρ : RegFile W) : ShiftCount → Nat
  | .const n => n
  | .reg r => (ρ r).toNat

def Cmp.holds (c : Cmp) (v : BitVec W) : Bool :=
  match c with
  | .eq => v == 0
  | .ne => v != 0

def Arm.value (ρ : RegFile W) : Arm → BitVec W
  | .zero => 0
  | .reg r => ρ r

/-- The values a source may have. -/
def Src.Evals (ρ : RegFile W) : Src → BitVec W → Prop
  | .zeroExtendHI x, v => ∃ a, x.Evals ρ a ∧ v = (a.setWidth 16).setWidth W
  | .lshiftrt m x n, v => n.value ρ < m.bits W ∧
      ∃ a, x.Evals ρ a ∧ v = shiftRight m a (n.value ρ)
  | .zeroExtendLshiftrt x n, v => n.value ρ < 32 ∧
      ∃ a, x.Evals ρ a ∧ v = (a.setWidth 32 >>> n.value ρ).setWidth W
  | .ifThenElse cmp r a b, v => v = if cmp.holds (ρ r) then a.value ρ else b.value ρ
  | .xor x y, v => v = ρ x ^^^ ρ y
  | .unspecCrc x y, v => v = ρ x ^^^ ρ y
  | .other _, _ => True

/-- One insn: the destination has a value of the source, a clobbered register any value. -/
def Insn.Step (i : Insn) (ρ ρ' : RegFile W) : Prop :=
  match i with
  | .insn p => ∃ v, p.src.Evals ρ v ∧
      ∀ r, r ∉ p.clobbers → ρ' r = if p.dest = .reg r then v else ρ r
  | _ => ρ' = ρ

theorem step_set {ρ : RegFile W} {r : RegNo} {s : Src} {v : BitVec W} (h : s.Evals ρ v) :
    (Insn.insn (set r s)).Step ρ (Function.update ρ r v) := by
  refine ⟨v, h, ?_⟩
  intro q _
  show Function.update ρ r v q = if Dest.reg r = Dest.reg q then v else ρ q
  by_cases hq : r = q
  · subst hq
    simp
  · simp [hq, Ne.symm hq]

/-- An execution of a list of insns. -/
abbrev Exec (l : List Insn) (ρ ρ' : RegFile W) : Prop := Run Insn.Step l ρ ρ'

end Execution

end Gcc
