import RiscvToolchain.Gcc.Rtl
import RiscvToolchain.Python.Str
import RiscvToolchain.Semantics.ByteLanes

/- Patterns of `bitmanip.md`: an insn with its RTL source, its enabling condition and its
   output, and what it means that the output computes the source.

   Correspondence (machine description and assembly ↔ Lean):
     `TARGET_64BIT`, `TARGET_ZBB`, ...  ↔ `Target`
     `operands[k]`                      ↔ `Operands`; the output block may replace one
     `match_operand:M k "predicate"`    ↔ `Rtx.matchOperand`, at the width of `M`
     `(rotate:SI ...)` and the like     ↔ `Rtx`, evaluated by `Rtx.eval`
     the output template                ↔ text, read by `parseTemplate`
     the instructions                   ↔ `Mnemonic`, executed by `Mnemonic.exec`
   A register operand of a mode narrower than a register is its low bits, and nothing is
   said of the bits above them. A result narrower than a register is written
   sign-extended. The immediate of a shift or rotate that does not fit its field and a
   word instruction on RV32 have no encoding (`none`). Instructions are those of the
   bitmanip specification and, for `packu`, of the draft P extension. -/
namespace Gcc.Bitmanip
open Python Semantics

structure Target where
  target64bit : Bool
  targetZbb : Bool
  targetZbkb : Bool
  targetZbpbo : Bool
  deriving DecidableEq, Repr

/-- The width of a register. -/
def Target.bits (t : Target) : Nat := if t.target64bit then 64 else 32

/-- An operand of an insn or of an instruction; a register of an insn is never `zero`. -/
inductive Arg where
  | reg (r : RegNo)
  | zero
  | imm (c : Int)
  deriving DecidableEq, Repr

abbrev Operands := Nat → Arg

def Arg.constIntP : Arg → Bool
  | .imm _ => true
  | _ => false

def Arg.intval : Arg → Int
  | .imm c => c
  | _ => 0

/-! The RTL. -/

inductive Predicate where
  | registerOperand
  | arithOperand
  | highMaskShiftOperand
  deriving DecidableEq, Repr

/-- The bits from some bit up to the top one. -/
def IsHighMask (c : Int) : Prop := ∃ k, k < 64 ∧ BitVec.ofInt 64 c = BitVec.allOnes 64 <<< k

/-- What the predicate accepts; the constraint `rI` asks no more than `arith_operand`. -/
def Predicate.Admits : Predicate → Arg → Prop
  | .registerOperand, .reg _ => True
  | .arithOperand, .reg _ => True
  | .arithOperand, .imm c => -2048 ≤ c ∧ c ≤ 2047
  | .highMaskShiftOperand, .imm c => IsHighMask c
  | _, _ => False

/-- The source of a SET, by the width of its mode. -/
inductive Rtx : Nat → Type where
  | matchOperand {w : Nat} (k : Nat) (p : Predicate) : Rtx w
  | constInt {w : Nat} (c : Int) : Rtx w
  | and {w : Nat} (x y : Rtx w) : Rtx w
  | ior {w : Nat} (x y : Rtx w) : Rtx w
  | ashift {w : Nat} (x : Rtx w) (n : Nat) : Rtx w
  | lshiftrt {w : Nat} (x : Rtx w) (n : Nat) : Rtx w
  | rotate {w : Nat} (x : Rtx w) (n : Rtx 8) : Rtx w
  | zeroExtend {v w : Nat} (x : Rtx v) : Rtx w
  | signExtend {v w : Nat} (x : Rtx v) : Rtx w
  | bswap {w : Nat} (x : Rtx w) : Rtx w
  | clz {w : Nat} (x : Rtx w) : Rtx w
  | ctz {w : Nat} (x : Rtx w) : Rtx w
  | popcount {w : Nat} (x : Rtx w) : Rtx w

def Rtx.Admits (ops : Operands) : {w : Nat} → Rtx w → Prop
  | _, .matchOperand k p => p.Admits (ops k)
  | _, .constInt _ => True
  | _, .and x y => x.Admits ops ∧ y.Admits ops
  | _, .ior x y => x.Admits ops ∧ y.Admits ops
  | _, .ashift x _ => x.Admits ops
  | _, .lshiftrt x _ => x.Admits ops
  | _, .rotate x n => x.Admits ops ∧ n.Admits ops
  | _, .zeroExtend x => x.Admits ops
  | _, .signExtend x => x.Admits ops
  | _, .bswap x => x.Admits ops
  | _, .clz x => x.Admits ops
  | _, .ctz x => x.Admits ops
  | _, .popcount x => x.Admits ops

/-- The bytes of a word, the other way round. -/
def reverseBytes {W : Nat} (x : BitVec W) : BitVec W := ofLanes fun i => lane x (W / 8 - 1 - i)

section Execution
variable {W : Nat}

/-- An operand in a mode of `w` bits. -/
def Arg.value (ρ : RegFile W) (w : Nat) : Arg → BitVec w
  | .reg r => (ρ r).setWidth w
  | .zero => 0#w
  | .imm c => BitVec.ofInt w c

def Rtx.eval (ρ : RegFile W) (ops : Operands) : {w : Nat} → Rtx w → BitVec w
  | w, .matchOperand k _ => (ops k).value ρ w
  | w, .constInt c => BitVec.ofInt w c
  | _, .and x y => x.eval ρ ops &&& y.eval ρ ops
  | _, .ior x y => x.eval ρ ops ||| y.eval ρ ops
  | _, .ashift x n => x.eval ρ ops <<< n
  | _, .lshiftrt x n => x.eval ρ ops >>> n
  | w, .rotate x n => (x.eval ρ ops).rotateLeft ((n.eval ρ ops).toNat % w)
  | w, .zeroExtend x => (x.eval ρ ops).setWidth w
  | w, .signExtend x => (x.eval ρ ops).signExtend w
  | _, .bswap x => reverseBytes (x.eval ρ ops)
  | _, .clz x => (x.eval ρ ops).clz
  | _, .ctz x => (x.eval ρ ops).ctz
  | _, .popcount x => (x.eval ρ ops).cpop

end Execution

/-! The instructions. -/

/-- Two source registers. -/
inductive RType where
  | rol
  | rolw
  | pack
  | packw
  | packu
  | packuw
  deriving DecidableEq, Repr

/-- A source register and an immediate. -/
inductive IType where
  | rori
  | roriw
  | srai
  | srli
  deriving DecidableEq, Repr

/-- One source register. -/
inductive UType where
  | rev8
  | clzw
  | ctzw
  | cpopw
  deriving DecidableEq, Repr

inductive Mnemonic where
  | r (op : RType)
  | i (op : IType)
  | u (op : UType)
  deriving DecidableEq, Repr

def mnemonics : List (Str × Mnemonic) :=
  [("rol".toList, .r .rol), ("rolw".toList, .r .rolw), ("pack".toList, .r .pack),
    ("packw".toList, .r .packw), ("packu".toList, .r .packu), ("packuw".toList, .r .packuw),
    ("rori".toList, .i .rori), ("roriw".toList, .i .roriw), ("srai".toList, .i .srai),
    ("srli".toList, .i .srli), ("rev8".toList, .u .rev8), ("clzw".toList, .u .clzw),
    ("ctzw".toList, .u .ctzw), ("cpopw".toList, .u .cpopw)]

/-- An instruction of RV64 alone, on the low words of its sources. -/
def Mnemonic.isWord : Mnemonic → Bool
  | .r op => op = .rolw ∨ op = .packw ∨ op = .packuw
  | .i op => op = .roriw
  | .u op => op = .clzw ∨ op = .ctzw ∨ op = .cpopw

section Execution
variable {W : Nat}

/-- The low half of `x`, under the low half of `y`. -/
def packLow (x y : BitVec W) : BitVec W := (x.setWidth (W / 2)).setWidth W ||| y <<< (W / 2)

/-- The high half of `x`, under the high half of `y`. -/
def packHigh (x y : BitVec W) : BitVec W := x >>> (W / 2) ||| (y >>> (W / 2)) <<< (W / 2)

def RType.eval (x y : BitVec W) : RType → BitVec W
  | .rol => x.rotateLeft (y.toNat % W)
  | .rolw => ((x.setWidth 32).rotateLeft (y.toNat % 32)).signExtend W
  | .pack => packLow x y
  | .packw => (packLow (x.setWidth 32) (y.setWidth 32)).signExtend W
  | .packu => packHigh x y
  | .packuw => (packHigh (x.setWidth 32) (y.setWidth 32)).signExtend W

/-- The immediates of the instruction: those below this. -/
def IType.bound (W : Nat) : IType → Nat
  | .roriw => 32
  | _ => W

def IType.eval (x : BitVec W) (n : Nat) : IType → BitVec W
  | .rori => x.rotateRight n
  | .roriw => ((x.setWidth 32).rotateRight n).signExtend W
  | .srai => x.sshiftRight n
  | .srli => x >>> n

def UType.eval (x : BitVec W) : UType → BitVec W
  | .rev8 => reverseBytes x
  | .clzw => (x.setWidth 32).clz.setWidth W
  | .ctzw => (x.setWidth 32).ctz.setWidth W
  | .cpopw => (x.setWidth 32).cpop.setWidth W

/-- A source register. -/
def Arg.read (ρ : RegFile W) : Arg → Option (BitVec W)
  | .reg r => some (ρ r)
  | .zero => some 0#W
  | .imm _ => none

/-- One instruction with its operands, the destination first. -/
def Mnemonic.exec (m : Mnemonic) (args : List Arg) (ρ : RegFile W) : Option (RegFile W) :=
  if m.isWord ∧ W ≠ 64 then none
  else match m, args with
    | .r op, [.reg rd, rs1, rs2] => do
      let x ← rs1.read ρ
      let y ← rs2.read ρ
      return Function.update ρ rd (op.eval x y)
    | .i op, [.reg rd, rs1, .imm c] => do
      let x ← rs1.read ρ
      if 0 ≤ c ∧ c < op.bound W then some (Function.update ρ rd (op.eval x c.toNat)) else none
    | .u op, [.reg rd, rs1] => do
      let x ← rs1.read ρ
      return Function.update ρ rd (op.eval x)
    | _, _ => none

end Execution

/-! Output templates. -/

/-- An operand as the template writes it: `%k`, `zero` or a number. -/
inductive TArg where
  | operand (k : Nat)
  | zero
  | number (n : Nat)
  deriving DecidableEq, Repr

def digitValue (c : Char) : Nat := c.toNat - '0'.toNat

def parseTArg (s : Str) : Option TArg :=
  match s with
  | ['%', c] => if c.isDigit then some (.operand (digitValue c)) else none
  | _ =>
    if s = "zero".toList then some .zero
    else if s ≠ [] ∧ s.all Char.isDigit then
      some (.number (s.foldl (fun n c => 10 * n + digitValue c) 0))
    else none

/-- One statement: the mnemonic, a tab, and the operands between commas. -/
def parseStatement (s : Str) : Option (Mnemonic × List TArg) :=
  match split '\t' (lstrip s) with
  | [name, args] => do
    let m ← mnemonics.lookup name
    let args ← (split ',' args).mapM parseTArg
    return (m, args)
  | _ => none

/-- The statements of a template, which `;` or a line end separates. -/
def parseTemplate (template : Str) : Option (List (Mnemonic × List TArg)) :=
  (((split '\n' template).flatMap (split ';')).filter (· ≠ [])).mapM parseStatement

def TArg.arg (ops : Operands) : TArg → Arg
  | .operand k => ops k
  | .zero => .zero
  | .number n => .imm n

def execStatements {W : Nat} (ops : Operands) (l : List (Mnemonic × List TArg))
    (ρ : RegFile W) : Option (RegFile W) :=
  l.foldlM (fun ρ s => s.1.exec (s.2.map (TArg.arg ops)) ρ) ρ

/-! Insns. -/

/-- A `define_insn` that sets register operand 0, in a mode of `width` bits. -/
structure DefineInsn where
  width : Nat
  src : Rtx width
  condition : Target → Operands → Bool
  /-- The output block: the operands it leaves, and the template. -/
  output : Target → Operands → Operands × Str

def DefineInsn.Matches (p : DefineInsn) (t : Target) (ops : Operands) : Prop :=
  p.condition t ops = true ∧ Predicate.registerOperand.Admits (ops 0) ∧ p.src.Admits ops

/-- The registers after the code of an insn. -/
def DefineInsn.exec (p : DefineInsn) (t : Target) (ops : Operands) (ρ : RegFile t.bits) :
    Option (RegFile t.bits) := do
  let (ops, template) := p.output t ops
  let statements ← parseTemplate template
  execStatements ops statements ρ

/-- From all register contents the code has an encoding and leaves the value of the source in
    the destination, sign-extended to a register, and every other register as it is. -/
def DefineInsn.LeavesRtl (p : DefineInsn) (t : Target) (ops : Operands) : Prop :=
  ∀ (ρ : RegFile t.bits) (rd : RegNo), ops 0 = .reg rd →
    p.exec t ops ρ = some (Function.update ρ rd ((p.src.eval ρ ops).signExtend t.bits))

/-- Wherever it is enabled and whatever it matches. -/
def DefineInsn.Implements (p : DefineInsn) : Prop :=
  ∀ t ops, p.Matches t ops → p.LeavesRtl t ops

theorem admits_registerOperand {a : Arg} (h : Predicate.registerOperand.Admits a) :
    ∃ r, a = .reg r := by
  cases a with
  | reg r => exact ⟨r, rfl⟩
  | zero => exact h.elim
  | imm c => exact h.elim

section Execution
variable {W : Nat} {ops : Operands} {rd : RegNo} {ρ : RegFile W}

theorem read_operand {k : Nat} {r : RegNo} (h : ops k = .reg r) :
    ((TArg.operand k).arg ops).read ρ = some (ρ r) := by
  rw [TArg.arg, h, Arg.read]

theorem execStatements_r {op : RType} {rs1 rs2 : TArg} {x y : BitVec W}
    (hword : ¬ ((Mnemonic.r op).isWord ∧ W ≠ 64)) (h0 : ops 0 = .reg rd)
    (h1 : (rs1.arg ops).read ρ = some x) (h2 : (rs2.arg ops).read ρ = some y) :
    execStatements ops [(.r op, [.operand 0, rs1, rs2])] ρ =
      some (Function.update ρ rd (op.eval x y)) := by
  simp only [execStatements, List.foldlM_cons, List.foldlM_nil, List.map_cons, List.map_nil,
    show (TArg.operand 0).arg ops = .reg rd from h0, Mnemonic.exec, if_neg hword, h1, h2,
    Option.bind_eq_bind, Option.bind_some, Option.pure_def]

theorem execStatements_u {op : UType} {rs1 : TArg} {x : BitVec W}
    (hword : ¬ ((Mnemonic.u op).isWord ∧ W ≠ 64)) (h0 : ops 0 = .reg rd)
    (h1 : (rs1.arg ops).read ρ = some x) (l : List (Mnemonic × List TArg)) :
    execStatements ops ((.u op, [.operand 0, rs1]) :: l) ρ =
      execStatements ops l (Function.update ρ rd (op.eval x)) := by
  simp only [execStatements, List.foldlM_cons, List.map_cons, List.map_nil,
    show (TArg.operand 0).arg ops = .reg rd from h0, Mnemonic.exec, if_neg hword, h1,
    Option.bind_eq_bind, Option.bind_some, Option.pure_def]

theorem execStatements_i {op : IType} {rs1 count : TArg} {x : BitVec W} {c : Int}
    (hword : ¬ ((Mnemonic.i op).isWord ∧ W ≠ 64)) (h0 : ops 0 = .reg rd)
    (h1 : (rs1.arg ops).read ρ = some x) (h2 : count.arg ops = .imm c) :
    execStatements ops [(.i op, [.operand 0, rs1, count])] ρ = if 0 ≤ c ∧ c < op.bound W
      then some (Function.update ρ rd (op.eval x c.toNat)) else none := by
  simp only [execStatements, List.foldlM_cons, List.foldlM_nil, List.map_cons, List.map_nil,
    show (TArg.operand 0).arg ops = .reg rd from h0, Mnemonic.exec, if_neg hword, h1, h2,
    Option.bind_eq_bind, Option.bind_some, Option.pure_def]
  split
  · rfl
  · rfl

end Execution

theorem exec_of_output {p : DefineInsn} {t : Target} {ops ops' : Operands} {template : Str}
    {statements : List (Mnemonic × List TArg)} (hout : p.output t ops = (ops', template))
    (hparse : parseTemplate template = some statements) (ρ : RegFile t.bits) :
    p.exec t ops ρ = execStatements ops' statements ρ := by
  simp only [DefineInsn.exec, hout, hparse, Option.bind_eq_bind, Option.bind_some]

/-- One instruction with two source registers. -/
theorem leavesRtl_r {p : DefineInsn} {t : Target} {ops : Operands} {template : Str} {op : RType}
    {rs1 rs2 : TArg} (hout : p.output t ops = (ops, template))
    (hparse : parseTemplate template = some [(.r op, [.operand 0, rs1, rs2])])
    (hword : ¬ ((Mnemonic.r op).isWord ∧ t.bits ≠ 64))
    (hval : ∀ ρ : RegFile t.bits, ∃ x y, (rs1.arg ops).read ρ = some x ∧
      (rs2.arg ops).read ρ = some y ∧ op.eval x y = (p.src.eval ρ ops).signExtend t.bits) :
    p.LeavesRtl t ops := by
  intro ρ rd h0
  obtain ⟨x, y, hx, hy, heval⟩ := hval ρ
  rw [exec_of_output hout hparse, execStatements_r hword h0 hx hy, heval]

end Gcc.Bitmanip
