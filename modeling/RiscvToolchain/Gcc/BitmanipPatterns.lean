import RiscvToolchain.Gcc.Bitmanip

/- The pack, byte-swap and bit-count patterns, under their final conditions.

   Correspondence (machine description ↔ Lean):
     `*packsi3`, `*packdi3`, `*packusi3`,         ↔ `packsi3`, `packdi3`, `packusi3`,
     `*packudi3`, `*packusi2`, `*packudi2`          `packudi3`, `packusi2`, `packudi2`
     `bswapsidi2_sext`, `bswapsidi2_zext`         ↔ `bswapsidi2Sext`, `bswapsidi2Zext`
     `*<bitmanip_optab>disi2_zext`                ↔ `disi2Zext`, one for each operation
     `ctz_hwi`                                    ↔ `ctzHwi`
     `high_mask_shift_operand`                    ↔ the masks of `IsHighMask`
   Every template names its operands in the order of the instruction, the low half
   first, where the RTL has the high half first. A source is read before the destination
   is written, so the two may be one register, in `rev8` and the shift after it too. -/
namespace Gcc.Bitmanip
open Python Semantics

def ctzHwi (x : Int) : Nat := (BitVec.ofInt 64 x).ctz.toNat

def reg {w : Nat} (k : Nat) : Rtx w := .matchOperand k .registerOperand

def packsi3 : DefineInsn where
  width := 32
  src := .ior (.ashift (reg 1) 16) (.zeroExtend (reg 2 : Rtx 16))
  condition t _ := (!t.target64bit && t.targetZbpbo) || t.targetZbkb
  output t ops := (ops, if t.target64bit then "packw\t%0,%2,%1".toList else "pack\t%0,%2,%1".toList)

def packdi3 : DefineInsn where
  width := 64
  src := .ior (.ashift (reg 1) 32) (.zeroExtend (reg 2 : Rtx 32))
  condition t _ := t.target64bit && (t.targetZbpbo || t.targetZbkb)
  output _ ops := (ops, "pack\t%0,%2,%1".toList)

def packusi3 : DefineInsn where
  width := 32
  src := .ior (.and (reg 1) (.constInt (-65536))) (.lshiftrt (reg 2) 16)
  condition t _ := !t.target64bit && t.targetZbpbo
  output t ops :=
    (ops, if t.target64bit then "packuw\t%0,%2,%1".toList else "packu\t%0,%2,%1".toList)

def packudi3 : DefineInsn where
  width := 64
  src := .ior (.and (reg 1) (.matchOperand 2 .highMaskShiftOperand)) (.lshiftrt (reg 3) 32)
  condition t ops := t.target64bit && t.targetZbpbo && ctzHwi (ops 2).intval == 32
  output _ ops := (ops, "packu\t%0,%3,%1".toList)

def packusi2 : DefineInsn where
  width := 32
  src := .and (reg 1) (.constInt (-65536))
  condition t _ := !t.target64bit && t.targetZbpbo
  output t ops :=
    (ops, if t.target64bit then "packuw\t%0,zero,%1".toList else "packu\t%0,zero,%1".toList)

def packudi2 : DefineInsn where
  width := 64
  src := .and (reg 1) (.matchOperand 2 .highMaskShiftOperand)
  condition t ops := t.target64bit && t.targetZbpbo && ctzHwi (ops 2).intval == 32
  output _ ops := (ops, "packu\t%0,zero,%1".toList)

def bswapsidi2Sext : DefineInsn where
  width := 64
  src := .signExtend (.bswap (reg 1 : Rtx 32))
  condition t _ := t.target64bit && (t.targetZbb || t.targetZbkb)
  output _ ops := (ops, "rev8\t%0,%1;\n\tsrai\t%0,%0,32".toList)

def bswapsidi2Zext : DefineInsn where
  width := 64
  src := .zeroExtend (.bswap (reg 1 : Rtx 32))
  condition t _ := t.target64bit && (t.targetZbb || t.targetZbkb)
  output _ ops := (ops, "rev8\t%0,%1;\n\tsrli\t%0,%0,32".toList)

/-- The iterator `clz_ctz_pcnt`. -/
inductive ClzCtzPcnt where
  | clz
  | ctz
  | popcount
  deriving DecidableEq, Repr

def ClzCtzPcnt.rtx {w : Nat} (x : Rtx w) : ClzCtzPcnt → Rtx w
  | .clz => .clz x
  | .ctz => .ctz x
  | .popcount => .popcount x

/-- `<bitmanip_insn>`. -/
def ClzCtzPcnt.bitmanipInsn : ClzCtzPcnt → Str
  | .clz => "clz".toList
  | .ctz => "ctz".toList
  | .popcount => "cpop".toList

def disi2Zext (op : ClzCtzPcnt) : DefineInsn where
  width := 64
  src := .zeroExtend (op.rtx (reg 1 : Rtx 32))
  condition t _ := t.target64bit && t.targetZbb
  output _ ops := (ops, op.bitmanipInsn ++ "w\t%0,%1".toList)

/-! Halves of a word. -/

section Halves

/-- Clearing the low bits is what a shift right and back does. -/
theorem and_highMask {w : Nat} (x : BitVec w) (k : Nat) :
    x &&& (BitVec.allOnes w <<< k) = (x >>> k) <<< k := by
  apply BitVec.eq_of_getLsbD_eq
  intro i hi
  rw [BitVec.getLsbD_and, BitVec.getLsbD_shiftLeft, BitVec.getLsbD_shiftLeft,
    BitVec.getLsbD_ushiftRight, BitVec.getLsbD_allOnes]
  by_cases h : i < k
  · simp [h]
  · rw [show k + (i - k) = i by omega]
    simp [h, hi, show i - k < w by omega]

theorem ctz_highMask {k : Nat} (hk : k < 64) : (BitVec.allOnes 64 <<< k).ctz.toNat = k := by
  have hbit : ∀ i, (BitVec.allOnes 64 <<< k).getLsbD i = decide (k ≤ i ∧ i < 64) := by
    intro i
    rw [BitVec.getLsbD_shiftLeft, BitVec.getLsbD_allOnes, Bool.eq_iff_iff]
    simp only [Bool.and_eq_true, Bool.not_eq_true', decide_eq_true_eq, decide_eq_false_iff_not]
    omega
  have hk1 : (BitVec.allOnes 64 <<< k).getLsbD k = true := by
    rw [hbit]
    simp [hk]
  have hne : BitVec.allOnes 64 <<< k ≠ 0#64 := by
    intro h0
    rw [h0] at hk1
    simp at hk1
  have htrue := BitVec.getLsbD_true_ctz_of_ne_zero hne
  rw [hbit, decide_eq_true_eq] at htrue
  refine Nat.le_antisymm (Nat.not_lt.mp ?_) htrue.1
  intro hlt
  rw [BitVec.getLsbD_false_of_lt_ctz hlt] at hk1
  cases hk1

/-- A high mask whose lowest bit is bit 32 is the high half. -/
theorem highMask_of_ctzHwi {c : Int} (h : IsHighMask c) (hc : ctzHwi c = 32) :
    BitVec.ofInt 64 c = BitVec.allOnes 64 <<< 32 := by
  obtain ⟨k, hk, hmask⟩ := h
  rw [ctzHwi, hmask, ctz_highMask hk] at hc
  rw [hmask, hc]

theorem getLsbD_reverseBytes {W : Nat} (hW : 8 ∣ W) (x : BitVec W) {i : Nat} (hi : i < W) :
    (reverseBytes x).getLsbD i = x.getLsbD (8 * (W / 8 - 1 - i / 8) + i % 8) := by
  rw [reverseBytes, getLsbD_ofLanes hW _ hi, getLsbD_lane _ _ (by omega)]

/-- The high word of the reversed doubleword is the reversed low word. -/
theorem reverseBytes_high (x : BitVec 64) :
    (reverseBytes x).extractLsb' 32 32 = reverseBytes (x.setWidth 32) := by
  apply BitVec.eq_of_getLsbD_eq
  intro i hi
  rw [BitVec.getLsbD_extractLsb', getLsbD_reverseBytes (by decide) x (by omega),
    getLsbD_reverseBytes (by decide) _ hi, BitVec.getLsbD_setWidth]
  have hindex : 8 * (64 / 8 - 1 - (32 + i) / 8) + (32 + i) % 8 = 8 * (32 / 8 - 1 - i / 8) + i % 8 := by
    omega
  have hlt : 8 * (32 / 8 - 1 - i / 8) + i % 8 < 32 := by omega
  rw [hindex]
  simp only [hi, hlt, decide_true, Bool.true_and]

theorem ushiftRight_high (x : BitVec 64) : x >>> 32 = (x.extractLsb' 32 32).setWidth 64 := by
  apply BitVec.eq_of_getLsbD_eq
  intro i hi
  rw [BitVec.getLsbD_ushiftRight, BitVec.getLsbD_setWidth, BitVec.getLsbD_extractLsb']
  by_cases h : i < 32
  · simp [h, hi]
  · simp [h, BitVec.getLsbD_of_ge x _ (show 64 ≤ 32 + i by omega)]

theorem sshiftRight_high (x : BitVec 64) :
    x.sshiftRight 32 = (x.extractLsb' 32 32).signExtend 64 := by
  apply BitVec.eq_of_getLsbD_eq
  intro i hi
  rw [BitVec.getLsbD_sshiftRight, BitVec.getLsbD_signExtend, BitVec.getLsbD_extractLsb',
    BitVec.msb_eq_getLsbD_last, BitVec.msb_eq_getLsbD_last, BitVec.getLsbD_extractLsb']
  by_cases h : i < 32
  · simp [h, hi, show 32 + i < 64 by omega]
  · simp [h, hi, show ¬ 32 + i < 64 by omega]

end Halves

/-! The instructions in the words of the RTL, at a register width. -/

section Widths
variable {W : Nat}

theorem packLow_eq {w : Nat} (x y : BitVec w) :
    packLow x y = y <<< (w / 2) ||| (x.setWidth (w / 2)).setWidth w := BitVec.or_comm ..

/-- `and` with the high half, under the high half. -/
theorem packHigh_eq {w : Nat} (x y : BitVec w) :
    packHigh x y = (y &&& (BitVec.allOnes w <<< (w / 2))) ||| x >>> (w / 2) := by
  rw [packHigh, and_highMask, BitVec.or_comm]

theorem packw_eq (x y : BitVec W) : RType.packw.eval x y =
    (y.setWidth 32 <<< 16 ||| (x.setWidth 16).setWidth 32).signExtend W := by
  have hlow : (x.setWidth 32).setWidth (32 / 2) = x.setWidth 16 :=
    BitVec.setWidth_setWidth_of_le _ (by decide)
  rw [RType.eval, packLow_eq, hlow]

theorem pack_eq_32 (hW : W = 32) (x y : BitVec W) : RType.pack.eval x y =
    (y.setWidth 32 <<< 16 ||| (x.setWidth 16).setWidth 32).signExtend W := by
  subst hW
  rw [RType.eval, packLow_eq, BitVec.signExtend_eq, BitVec.setWidth_eq]

theorem pack_eq_64 (hW : W = 64) (x y : BitVec W) : RType.pack.eval x y =
    (y.setWidth 64 <<< 32 ||| (x.setWidth 32).setWidth 64).signExtend W := by
  subst hW
  rw [RType.eval, packLow_eq, BitVec.signExtend_eq, BitVec.setWidth_eq]

theorem packu_eq_32 (hW : W = 32) (x y : BitVec W) : RType.packu.eval x y =
    ((y.setWidth 32 &&& BitVec.ofInt 32 (-65536)) ||| x.setWidth 32 >>> 16).signExtend W := by
  subst hW
  rw [RType.eval, packHigh_eq, BitVec.signExtend_eq, BitVec.setWidth_eq, BitVec.setWidth_eq]
  rfl

theorem packu_eq_64 (hW : W = 64) (x y : BitVec W) {c : Int} (hc : IsHighMask c)
    (hctz : ctzHwi c = 32) : RType.packu.eval x y =
    ((y.setWidth 64 &&& BitVec.ofInt 64 c) ||| x.setWidth 64 >>> 32).signExtend W := by
  subst hW
  rw [RType.eval, packHigh_eq, BitVec.signExtend_eq, BitVec.setWidth_eq, BitVec.setWidth_eq,
    highMask_of_ctzHwi hc hctz]

end Widths

/-! The patterns. -/

theorem bits_of_64 {t : Target} (h : t.target64bit = true) : t.bits = 64 := by
  rw [Target.bits, if_pos h]

theorem bits_of_32 {t : Target} (h : t.target64bit = false) : t.bits = 32 := by
  rw [Target.bits, if_neg (by simp [h])]

theorem packsi3_implements : packsi3.Implements := by
  intro t ops hm
  obtain ⟨-, -, h1, h2⟩ := hm
  obtain ⟨r1, h1⟩ := admits_registerOperand h1
  obtain ⟨r2, h2⟩ := admits_registerOperand h2
  have hsrc : ∀ ρ : RegFile t.bits, packsi3.src.eval ρ ops =
      (ρ r1).setWidth 32 <<< 16 ||| ((ρ r2).setWidth 16).setWidth 32 := by
    intro ρ
    simp only [packsi3, reg, Rtx.eval, h1, h2, Arg.value]
  cases hb : t.target64bit with
  | false =>
    have hout : packsi3.output t ops = (ops, "pack\t%0,%2,%1".toList) :=
      congrArg (Prod.mk ops) (if_neg (by rw [hb]; decide))
    have hparse : parseTemplate "pack\t%0,%2,%1".toList =
        some [(.r .pack, [.operand 0, .operand 2, .operand 1])] := by decide
    refine leavesRtl_r hout hparse (by simp [Mnemonic.isWord]) ?_
    intro ρ
    refine ⟨_, _, read_operand h2, read_operand h1, ?_⟩
    rw [hsrc]
    exact pack_eq_32 (bits_of_32 hb) _ _
  | true =>
    have hout : packsi3.output t ops = (ops, "packw\t%0,%2,%1".toList) :=
      congrArg (Prod.mk ops) (if_pos hb)
    have hparse : parseTemplate "packw\t%0,%2,%1".toList =
        some [(.r .packw, [.operand 0, .operand 2, .operand 1])] := by decide
    refine leavesRtl_r hout hparse (by simp [bits_of_64 hb]) ?_
    intro ρ
    refine ⟨_, _, read_operand h2, read_operand h1, ?_⟩
    rw [hsrc]
    exact packw_eq _ _

theorem packdi3_implements : packdi3.Implements := by
  intro t ops hm
  obtain ⟨hc, -, h1, h2⟩ := hm
  have hW := bits_of_64 (Bool.and_eq_true_iff.mp hc).1
  obtain ⟨r1, h1⟩ := admits_registerOperand h1
  obtain ⟨r2, h2⟩ := admits_registerOperand h2
  have hparse : parseTemplate "pack\t%0,%2,%1".toList =
      some [(.r .pack, [.operand 0, .operand 2, .operand 1])] := by decide
  refine leavesRtl_r rfl hparse (by simp [Mnemonic.isWord]) ?_
  intro ρ
  refine ⟨_, _, read_operand h2, read_operand h1, ?_⟩
  simp only [packdi3, reg, Rtx.eval, h1, h2, Arg.value]
  rw [pack_eq_64 hW]

theorem packusi3_implements : packusi3.Implements := by
  intro t ops hm
  obtain ⟨hc, -, ⟨h1, -⟩, h2⟩ := hm
  have hb : t.target64bit = false := by simpa using (Bool.and_eq_true_iff.mp hc).1
  obtain ⟨r1, h1⟩ := admits_registerOperand h1
  obtain ⟨r2, h2⟩ := admits_registerOperand h2
  have hout : packusi3.output t ops = (ops, "packu\t%0,%2,%1".toList) :=
    congrArg (Prod.mk ops) (if_neg (by rw [hb]; decide))
  have hparse : parseTemplate "packu\t%0,%2,%1".toList =
      some [(.r .packu, [.operand 0, .operand 2, .operand 1])] := by decide
  refine leavesRtl_r hout hparse (by simp [Mnemonic.isWord]) ?_
  intro ρ
  refine ⟨_, _, read_operand h2, read_operand h1, ?_⟩
  simp only [packusi3, reg, Rtx.eval, h1, h2, Arg.value]
  rw [packu_eq_32 (bits_of_32 hb)]

theorem packusi2_implements : packusi2.Implements := by
  intro t ops hm
  obtain ⟨hc, -, h1, -⟩ := hm
  have hb : t.target64bit = false := by simpa using (Bool.and_eq_true_iff.mp hc).1
  obtain ⟨r1, h1⟩ := admits_registerOperand h1
  have hout : packusi2.output t ops = (ops, "packu\t%0,zero,%1".toList) :=
    congrArg (Prod.mk ops) (if_neg (by rw [hb]; decide))
  have hparse : parseTemplate "packu\t%0,zero,%1".toList =
      some [(.r .packu, [.operand 0, .zero, .operand 1])] := by decide
  refine leavesRtl_r hout hparse (by simp [Mnemonic.isWord]) ?_
  intro ρ
  refine ⟨_, _, rfl, read_operand h1, ?_⟩
  simp only [packusi2, reg, Rtx.eval, h1, Arg.value]
  rw [packu_eq_32 (bits_of_32 hb), BitVec.setWidth_zero, BitVec.zero_ushiftRight, BitVec.or_zero]

/-- The mask of the two DImode patterns. -/
theorem packu_condition {t : Target} {c : Arg}
    (h : (t.target64bit && t.targetZbpbo && ctzHwi c.intval == 32) = true)
    (hmask : Predicate.highMaskShiftOperand.Admits c) :
    t.bits = 64 ∧ ∃ i, c = .imm i ∧ IsHighMask i ∧ ctzHwi i = 32 := by
  rw [Bool.and_eq_true, Bool.and_eq_true, beq_iff_eq] at h
  cases c with
  | reg r => exact hmask.elim
  | zero => exact hmask.elim
  | imm i => exact ⟨bits_of_64 h.1.1, i, rfl, hmask, h.2⟩

theorem packudi3_implements : packudi3.Implements := by
  intro t ops hm
  obtain ⟨hc, -, ⟨h1, h2⟩, h3⟩ := hm
  obtain ⟨hW, c, h2, hmask, hctz⟩ := packu_condition hc h2
  obtain ⟨r1, h1⟩ := admits_registerOperand h1
  obtain ⟨r3, h3⟩ := admits_registerOperand h3
  have hparse : parseTemplate "packu\t%0,%3,%1".toList =
      some [(.r .packu, [.operand 0, .operand 3, .operand 1])] := by decide
  refine leavesRtl_r rfl hparse (by simp [Mnemonic.isWord]) ?_
  intro ρ
  refine ⟨_, _, read_operand h3, read_operand h1, ?_⟩
  simp only [packudi3, reg, Rtx.eval, h1, h2, h3, Arg.value]
  rw [packu_eq_64 hW _ _ hmask hctz]

theorem packudi2_implements : packudi2.Implements := by
  intro t ops hm
  obtain ⟨hc, -, h1, h2⟩ := hm
  obtain ⟨hW, c, h2, hmask, hctz⟩ := packu_condition hc h2
  obtain ⟨r1, h1⟩ := admits_registerOperand h1
  have hparse : parseTemplate "packu\t%0,zero,%1".toList =
      some [(.r .packu, [.operand 0, .zero, .operand 1])] := by decide
  refine leavesRtl_r rfl hparse (by simp [Mnemonic.isWord]) ?_
  intro ρ
  refine ⟨_, _, rfl, read_operand h1, ?_⟩
  simp only [packudi2, reg, Rtx.eval, h1, h2, Arg.value]
  rw [packu_eq_64 hW _ _ hmask hctz, BitVec.setWidth_zero, BitVec.zero_ushiftRight,
    BitVec.or_zero]

/-- `rev8` and a shift by 32 of what it left in the destination. -/
theorem bswap_exec {p : DefineInsn} {t : Target} {ops : Operands} {template : Str} {op : IType}
    (hW : t.bits = 64) (hout : p.output t ops = (ops, template))
    (hparse : parseTemplate template = some [(.u .rev8, [.operand 0, .operand 1]),
      (.i op, [.operand 0, .operand 0, .number 32])])
    (hword : ¬ ((Mnemonic.i op).isWord ∧ t.bits ≠ 64)) (hbound : op.bound t.bits = 64)
    (h1 : Predicate.registerOperand.Admits (ops 1))
    (hval : ∀ ρ : RegFile t.bits, op.eval (reverseBytes ((ops 1).value ρ t.bits)) 32 =
      (p.src.eval ρ ops).signExtend t.bits) : p.LeavesRtl t ops := by
  intro ρ rd h0
  obtain ⟨r1, h1⟩ := admits_registerOperand h1
  have hval := hval ρ
  rw [h1, Arg.value, BitVec.setWidth_eq] at hval
  rw [exec_of_output hout hparse,
    execStatements_u (by simp [hW]) h0 (read_operand h1), execStatements_i hword h0
      (read_operand h0) rfl, hbound, if_pos (by decide), Function.update_self,
    Function.update_idem, ← hval]
  rfl

theorem rev8_srai {W : Nat} (hW : W = 64) (x : BitVec W) :
    IType.srai.eval (reverseBytes x) 32 =
      ((reverseBytes (x.setWidth 32)).signExtend 64).signExtend W := by
  subst hW
  rw [IType.eval, sshiftRight_high, reverseBytes_high, BitVec.signExtend_eq]

theorem rev8_srli {W : Nat} (hW : W = 64) (x : BitVec W) :
    IType.srli.eval (reverseBytes x) 32 =
      ((reverseBytes (x.setWidth 32)).setWidth 64).signExtend W := by
  subst hW
  rw [IType.eval, ushiftRight_high, reverseBytes_high, BitVec.signExtend_eq]

theorem bswapsidi2Sext_implements : bswapsidi2Sext.Implements := by
  intro t ops hm
  obtain ⟨hc, -, h1⟩ := hm
  have hW := bits_of_64 (Bool.and_eq_true_iff.mp hc).1
  have hparse : parseTemplate "rev8\t%0,%1;\n\tsrai\t%0,%0,32".toList =
      some [(.u .rev8, [.operand 0, .operand 1]),
        (.i .srai, [.operand 0, .operand 0, .number 32])] := by decide
  refine bswap_exec hW rfl hparse (by simp [hW]) hW h1 ?_
  intro ρ
  obtain ⟨r1, h1⟩ := admits_registerOperand h1
  simp only [bswapsidi2Sext, reg, Rtx.eval, h1, Arg.value, BitVec.setWidth_eq]
  exact rev8_srai hW (ρ r1)

theorem bswapsidi2Zext_implements : bswapsidi2Zext.Implements := by
  intro t ops hm
  obtain ⟨hc, -, h1⟩ := hm
  have hW := bits_of_64 (Bool.and_eq_true_iff.mp hc).1
  have hparse : parseTemplate "rev8\t%0,%1;\n\tsrli\t%0,%0,32".toList =
      some [(.u .rev8, [.operand 0, .operand 1]),
        (.i .srli, [.operand 0, .operand 0, .number 32])] := by decide
  refine bswap_exec hW rfl hparse (by simp [hW]) hW h1 ?_
  intro ρ
  obtain ⟨r1, h1⟩ := admits_registerOperand h1
  simp only [bswapsidi2Zext, reg, Rtx.eval, h1, Arg.value, BitVec.setWidth_eq]
  exact rev8_srli hW (ρ r1)

/-- The instruction of `<bitmanip_insn>w`. -/
def ClzCtzPcnt.word : ClzCtzPcnt → UType
  | .clz => .clzw
  | .ctz => .ctzw
  | .popcount => .cpopw

theorem disi2Zext_implements (op : ClzCtzPcnt) : (disi2Zext op).Implements := by
  intro t ops hm ρ rd h0
  obtain ⟨hc, -, h1⟩ := hm
  have hW := bits_of_64 (Bool.and_eq_true_iff.mp hc).1
  obtain ⟨r1, h1⟩ : ∃ r, ops 1 = .reg r := by cases op <;> exact admits_registerOperand h1
  have hparse : parseTemplate (op.bitmanipInsn ++ "w\t%0,%1".toList) =
      some [(.u op.word, [.operand 0, .operand 1])] := by cases op <;> decide
  have hvalue : (ops 1).value ρ 32 = (ρ r1).setWidth 32 := by rw [h1, Arg.value]
  -- a count of 32 bits at most is its own sign extension
  have hval : op.word.eval (ρ r1) = ((disi2Zext op).src.eval ρ ops).signExtend t.bits := by
    generalize t.bits = W at *
    subst hW
    cases op with
    | clz =>
      show _ = (((ops 1).value ρ 32).clz.setWidth 64).signExtend 64
      rw [hvalue, BitVec.signExtend_eq]
      rfl
    | ctz =>
      show _ = (((ops 1).value ρ 32).ctz.setWidth 64).signExtend 64
      rw [hvalue, BitVec.signExtend_eq]
      rfl
    | popcount =>
      show _ = (((ops 1).value ρ 32).cpop.setWidth 64).signExtend 64
      rw [hvalue, BitVec.signExtend_eq]
      rfl
  have hout : (disi2Zext op).output t ops = (ops, op.bitmanipInsn ++ "w\t%0,%1".toList) := rfl
  rw [exec_of_output hout hparse, execStatements_u (by simp [hW]) h0 (read_operand h1), hval]
  rfl

/-- Each of the patterns, on each target that enables it and for all operands it matches. -/
theorem patterns_implement : packsi3.Implements ∧ packdi3.Implements ∧ packusi3.Implements ∧
    packudi3.Implements ∧ packusi2.Implements ∧ packudi2.Implements ∧
    bswapsidi2Sext.Implements ∧ bswapsidi2Zext.Implements ∧
    ∀ op : ClzCtzPcnt, (disi2Zext op).Implements :=
  ⟨packsi3_implements, packdi3_implements, packusi3_implements, packudi3_implements,
    packusi2_implements, packudi2_implements, bswapsidi2Sext_implements,
    bswapsidi2Zext_implements, disi2Zext_implements⟩

end Gcc.Bitmanip
