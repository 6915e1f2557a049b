import RiscvToolchain.Semantics.BitField

/- The entries that the patches to binutils add to `riscv_opcodes`, in the order of the
   patched table, with the entries of the original table that share a mnemonic with one
   of them: `riscv_ip` tries the entries of a mnemonic in turn, so these decide what an
   added entry is reached with.

   Correspondence (binutils ↔ Lean):
     `struct riscv_opcode`            ↔ `Opcode`, `xlen_requirement` 0 as `none`
     the operand string               ↔ `Opcode.args`, one `Arg` for each operand
     `OP_MASK_*`, `OP_SH_*`           ↔ `opRd` … `opShamtw`, the fields an operand is written to
     `MATCH_REV`, `MATCH_ORC`, …      ↔ `matchRev`, `matchOrc`, `matchZip`, `matchUnzip`
     `MATCH_*`, `MASK_*`              ↔ their values
     `match_func`                     ↔ `MatchFunc`, `pinfo` ↔ `Pinfo`
   `baseEntries` are the entries of the original table whose words an added entry has:
   `add64` and `sub64` are `add` and `sub` on RV64, `smmul` is `mulh` on RV32.
   The entry of a pseudo instruction (`INSN_MACRO`) holds the number of its expansion in
   the place of a mask; nothing reads it as one, and it stands as 0 here. -/
namespace Binutils
open Semantics

inductive Xlen
  | rv32 | rv64
deriving DecidableEq

def Xlen.bits : Xlen → Nat
  | .rv32 => 32
  | .rv64 => 64

/-- The instruction classes of the entries. -/
inductive InsnClass
  | i | zmmul | zbb | zbkb | zbbOrZbkb | zbpbo | zpn | zpsfoperand | xbp | xflush | xgost
deriving DecidableEq

/-- The operands of an operand string: a register (`d`, `s`, `t`, `r`), one register for
    both sources (`v`), a shift amount (`>`, `<`), an immediate of the P extension (`i3`,
    `i4`, `ib`), and the even register of a pair (`+d`, `+s`, `+t`). -/
inductive Arg
  | d | s | t | r | v | shamt | shamtw | i3 | i4 | ib | pairD | pairS | pairT
deriving DecidableEq

inductive MatchFunc
  | opcode | rs1EqRs2 | never
deriving DecidableEq

inductive Pinfo
  | plain | insnAlias | insnMacro
deriving DecidableEq

-- a dot of the mnemonic is written as an underscore
inductive Mnemonic
  | add | neg | sub | mulh
  | clz | min | max | zext_h | gorc | gorci | orc_p | orc2_n | orc_n | orc4_b | orc2_b | orc_b
  | orc8_h | orc4_h | orc2_h | orc_h | orc32 | orc16 | orc8 | orc4 | orc2 | orc | orc16_w | orc8_w
  | orc4_w | orc2_w | orc_w | grev | grevi | rev_p | rev2_n | rev_n | rev4_b | rev2_b | rev_b
  | rev8_h | rev4_h | rev2_h | rev_h | rev32 | rev16 | rev4 | rev2 | rev | rev16_w | rev8_w
  | rev4_w | rev2_w | rev_w | zip | unzip | pack | packu | packh | packw | packuw | shfl | shfli
  | zip_n | zip2_b | zip_b | zip4_h | zip2_h | zip_h | zip16 | zip8 | zip4 | zip2 | zip8_w
  | zip4_w | zip2_w | zip_w | unshfl | unshfli | unzip_n | unzip2_b | unzip_b | unzip4_h
  | unzip2_h | unzip_h | unzip16 | unzip8 | unzip4 | unzip2 | unzip8_w | unzip4_w | unzip2_w
  | unzip_w | xperm_n | xperm_b | xperm_h | xperm_w | rev8 | cmix | fsr | fsri | fsrw | add16
  | radd16 | uradd16 | kadd16 | ukadd16 | sub16 | rsub16 | ursub16 | ksub16 | uksub16 | cras16
  | rcras16 | urcras16 | kcras16 | ukcras16 | crsa16 | rcrsa16 | urcrsa16 | kcrsa16 | ukcrsa16
  | stas16 | rstas16 | urstas16 | kstas16 | ukstas16 | stsa16 | rstsa16 | urstsa16 | kstsa16
  | ukstsa16 | add8 | radd8 | uradd8 | kadd8 | ukadd8 | sub8 | rsub8 | ursub8 | ksub8 | uksub8
  | sra16 | srai16 | sra16_u | srai16_u | srl16 | srli16 | srl16_u | srli16_u | sll16 | slli16
  | ksll16 | kslli16 | kslra16 | kslra16_u | sra8 | srai8 | sra8_u | srai8_u | srl8 | srli8
  | srl8_u | srli8_u | sll8 | slli8 | ksll8 | kslli8 | kslra8 | kslra8_u | cmpeq16 | scmplt16
  | scmple16 | ucmplt16 | ucmple16 | cmpeq8 | scmplt8 | scmple8 | ucmplt8 | ucmple8 | khm16
  | khmx16 | khm8 | khmx8 | smin16 | umin16 | smax16 | umax16 | sclip16 | uclip16 | kabs16
  | clrs16 | clz16 | smin8 | umin8 | smax8 | umax8 | sclip8 | uclip8 | kabs8 | clrs8 | clz8
  | sunpkd810 | sunpkd820 | sunpkd830 | sunpkd831 | sunpkd832 | zunpkd810 | zunpkd820 | zunpkd830
  | zunpkd831 | zunpkd832 | pkbb16 | pkbt16 | pktb16 | pktt16 | smmul | smmul_u | kmmac | kmmac_u
  | kmmsb | kmmsb_u | kwmmul | kwmmul_u | smmwb | smmwb_u | smmwt | smmwt_u | kmmawb | kmmawb_u
  | kmmawt | kmmawt_u | kmmwb2 | kmmwb2_u | kmmwt2 | kmmwt2_u | kmmawb2 | kmmawb2_u | kmmawt2
  | kmmawt2_u | smbb32 | smbt32 | smtt32 | smbb16 | smbt16 | smtt16 | kmda | kmxda | smds | smdrs
  | smxds | kmabb | kmabt | kmatt | kmada | kmaxda | kmads | kmadrs | kmaxds | kmsda | kmsxda
  | sclip32 | uclip32 | clrs32 | clz32 | pbsad | pbsada | smaqa | umaqa | smaqa_su | kaddh | ksubh
  | khmbb | khmbt | khmtt | ukaddh | uksubh | kaddw | ukaddw | ksubw | uksubw | kdmbb | kdmbt
  | kdmtt | kslraw | kslraw_u | ksllw | kslliw | kdmabb | kdmabt | kdmatt | kabsw | raddw | uraddw
  | rsubw | ursubw | rdov | clrov | ave | sra_u | srai_u | maddr32 | msubr32 | insb | swap8
  | swap16 | mulr64 | mulsr64 | smal | smalbb | smalbt | smaltt | smalda | smalxda | smalds
  | smaldrs | smalxds | smslda | smslxda | smar64 | smsr64 | umar64 | umsr64 | kmar64 | kmsr64
  | ukmsr64 | ukmar64 | smul16 | smulx16 | smul8 | smulx8 | umul8 | umulx8 | umul16 | umulx16
  | add64 | radd64 | uradd64 | kadd64 | ukadd64 | sub64 | rsub64 | ursub64 | ksub64 | uksub64
  | pkbb32 | pkbt32 | pktb32 | pktt32 | sll32 | slli32 | sra32 | sra32_u | srai32 | srai32_u
  | sraiw_u | srl32 | srl32_u | srli32 | srli32_u | add32 | radd32 | uradd32 | kadd32 | ukadd32
  | sub32 | rsub32 | ursub32 | ksub32 | uksub32 | smds32 | smdrs32 | smxds32 | smax32 | smin32
  | umax32 | umin32 | cras32 | rcras32 | urcras32 | kcras32 | ukcras32 | crsa32 | rcrsa32
  | urcrsa32 | kcrsa32 | ukcrsa32 | stas32 | rstas32 | urstas32 | kstas32 | ukstas32 | stsa32
  | rstsa32 | urstsa32 | kstsa32 | ukstsa32 | kabs32 | kdmbb16 | kdmbt16 | kdmtt16 | kdmabb16
  | kdmabt16 | kdmatt16 | khmbb16 | khmbt16 | khmtt16 | kmabb32 | kmabt32 | kmatt32 | kmada32
  | kmaxda32 | kmda32 | kmxda32 | kmads32 | kmadrs32 | kmaxds32 | kmsda32 | kmsxda32 | ksll32
  | kslli32 | kslra32 | kslra32_u | cflush_d_l1 | cdiscard_d_l1 | gost32sb | gost32sbi
  | gost32kuld | gost32kuldh | gost32kule | gost32kuleh | gost32mgma | gost32tau1 | gost32tau2
  | gost32lin1 | gost32lin2 | gost64sb | gost64sbi | gost64kuld | gost64kule | gost64mgma
  | gost64tau1 | gost64tau2 | gost64lin1 | gost64lin2
deriving DecidableEq

structure Opcode where
  name : Mnemonic
  xlenRequirement : Option Xlen
  insnClass : InsnClass
  args : List Arg
  matchBits : BitVec 32
  mask : BitVec 32
  matchFunc : MatchFunc
  pinfo : Pinfo
deriving DecidableEq

/-! The fields of a word. -/

def opRd : Field 32 := ⟨0x1f, 7, by decide⟩

def opRs1 : Field 32 := ⟨0x1f, 15, by decide⟩

def opRs2 : Field 32 := ⟨0x1f, 20, by decide⟩

def opRs3 : Field 32 := ⟨0x1f, 27, by decide⟩

def opShamt : Field 32 := ⟨0x3f, 20, by decide⟩

def opShamtw : Field 32 := ⟨0x1f, 20, by decide⟩

def opImm3 : Field 32 := ⟨0x7, 20, by decide⟩

def opImm4 : Field 32 := ⟨0xf, 20, by decide⟩

/-- The fields that `riscv_ip` writes an operand to. -/
def Arg.fields : Arg → List (Field 32)
  | .d | .pairD => [opRd]
  | .s | .pairS => [opRs1]
  | .t | .pairT => [opRs2]
  | .r => [opRs3]
  | .v => [opRs1, opRs2]
  | .shamt => [opShamt]
  | .shamtw => [opShamtw]
  | .i3 | .ib => [opImm3]
  | .i4 => [opImm4]

def Opcode.fields (e : Opcode) : List (Field 32) := e.args.flatMap Arg.fields

/-! The table. -/

def matchRev (x : BitVec 32) : BitVec 32 := 0x68005013 ||| (x <<< 20)

def matchOrc (x : BitVec 32) : BitVec 32 := 0x28005013 ||| (x <<< 20)

def matchZip (x : BitVec 32) : BitVec 32 := 0x08001013 ||| (x <<< 20)

def matchUnzip (x : BitVec 32) : BitVec 32 := 0x08005013 ||| (x <<< 20)

section Table
open Xlen

def baseEntries : List Opcode := [
  ⟨.add, none, .i, [.d, .s, .t], 0x00000033, 0xfe00707f, .opcode, .plain⟩,
  ⟨.neg, none, .i, [.d, .t], 0x40000033, 0xfe0ff07f, .opcode, .insnAlias⟩,
  ⟨.sub, none, .i, [.d, .s, .t], 0x40000033, 0xfe00707f, .opcode, .plain⟩,
  ⟨.mulh, none, .zmmul, [.d, .s, .t], 0x02001033, 0xfe00707f, .opcode, .plain⟩]

/-- Bit manipulation: the hunks among the entries of Zbb and Zbkb. -/
def bitmanip : List Opcode := [
  ⟨.clz, none, .zbb, [.d, .s], 0x60001013, 0xfff0707f, .opcode, .plain⟩,
  ⟨.clz, some rv32, .zbpbo, [.d, .s], 0x60001013, 0xfff0707f, .opcode, .plain⟩,
  ⟨.min, none, .zbb, [.d, .s, .t], 0x0a004033, 0xfe00707f, .opcode, .plain⟩,
  ⟨.min, none, .zbpbo, [.d, .s, .t], 0x0a004033, 0xfe00707f, .opcode, .plain⟩,
  ⟨.max, none, .zbb, [.d, .s, .t], 0x0a006033, 0xfe00707f, .opcode, .plain⟩,
  ⟨.max, none, .zbpbo, [.d, .s, .t], 0x0a006033, 0xfe00707f, .opcode, .plain⟩,
  ⟨.zext_h, some rv32, .zbb, [.d, .s], 0x08004033, 0xfff0707f, .opcode, .plain⟩,
  ⟨.zext_h, some rv64, .zbb, [.d, .s], 0x0800403b, 0xfff0707f, .opcode, .plain⟩,
  ⟨.zext_h, none, .i, [.d, .s], 0, 0, .never, .insnMacro⟩,
  ⟨.zext_h, some rv32, .xbp, [.d, .s], 0x08004033, 0xfff0707f, .opcode, .insnAlias⟩,
  ⟨.zext_h, some rv64, .xbp, [.d, .s], 0x0800403b, 0xfff0707f, .opcode, .insnAlias⟩,
  ⟨.gorc, none, .xbp, [.d, .s, .t], 0x28005033, 0xfe00707f, .opcode, .plain⟩,
  ⟨.gorc, none, .xbp, [.d, .s, .shamt], 0x28005013, 0xfc00707f, .opcode, .plain⟩,
  ⟨.gorci, none, .xbp, [.d, .s, .shamt], 0x28005013, 0xfc00707f, .opcode, .plain⟩,
  ⟨.orc_p, none, .xbp, [.d, .s], matchOrc 0x01, 0xfff0707f, .opcode, .insnAlias⟩,
  ⟨.orc2_n, none, .xbp, [.d, .s], matchOrc 0x02, 0xfff0707f, .opcode, .insnAlias⟩,
  ⟨.orc_n, none, .xbp, [.d, .s], matchOrc 0x03, 0xfff0707f, .opcode, .insnAlias⟩,
  ⟨.orc4_b, none, .xbp, [.d, .s], matchOrc 0x04, 0xfff0707f, .opcode, .insnAlias⟩,
  ⟨.orc2_b, none, .xbp, [.d, .s], matchOrc 0x06, 0xfff0707f, .opcode, .insnAlias⟩,
  ⟨.orc_b, none, .zbb, [.d, .s], 0x28705013, 0xfff0707f, .opcode, .plain⟩,
  ⟨.orc_b, none, .xbp, [.d, .s], matchOrc 0x07, 0xfff0707f, .opcode, .insnAlias⟩,
  ⟨.orc8_h, none, .xbp, [.d, .s], matchOrc 0x08, 0xfff0707f, .opcode, .insnAlias⟩,
  ⟨.orc4_h, none, .xbp, [.d, .s], matchOrc 0x0c, 0xfff0707f, .opcode, .insnAlias⟩,
  ⟨.orc2_h, none, .xbp, [.d, .s], matchOrc 0x0e, 0xfff0707f, .opcode, .insnAlias⟩,
  ⟨.orc_h, none, .xbp, [.d, .s], matchOrc 0x0f, 0xfff0707f, .opcode, .insnAlias⟩,
  ⟨.orc32, some rv64, .xbp, [.d, .s], matchOrc 0x20, 0xfff0707f, .opcode, .insnAlias⟩,
  ⟨.orc16, some rv32, .xbp, [.d, .s], matchOrc 0x10, 0xfff0707f, .opcode, .insnAlias⟩,
  ⟨.orc16, some rv64, .xbp, [.d, .s], matchOrc 0x30, 0xfff0707f, .opcode, .insnAlias⟩,
  ⟨.orc8, some rv32, .xbp, [.d, .s], matchOrc 0x18, 0xfff0707f, .opcode, .insnAlias⟩,
  ⟨.orc8, some rv64, .xbp, [.d, .s], matchOrc 0x38, 0xfff0707f, .opcode, .insnAlias⟩,
  ⟨.orc4, some rv32, .xbp, [.d, .s], matchOrc 0x1c, 0xfff0707f, .opcode, .insnAlias⟩,
  ⟨.orc4, some rv64, .xbp, [.d, .s], matchOrc 0x3c, 0xfff0707f, .opcode, .insnAlias⟩,
  ⟨.orc2, some rv32, .xbp, [.d, .s], matchOrc 0x1e, 0xfff0707f, .opcode, .insnAlias⟩,
  ⟨.orc2, some rv64, .xbp, [.d, .s], matchOrc 0x3e, 0xfff0707f, .opcode, .insnAlias⟩,
  ⟨.orc, some rv32, .xbp, [.d, .s], matchOrc 0x1f, 0xfff0707f, .opcode, .insnAlias⟩,
  ⟨.orc, some rv64, .xbp, [.d, .s], matchOrc 0x3f, 0xfff0707f, .opcode, .insnAlias⟩,
  ⟨.orc16_w, some rv64, .xbp, [.d, .s], matchOrc 0x10, 0xfff0707f, .opcode, .insnAlias⟩,
  ⟨.orc8_w, some rv64, .xbp, [.d, .s], matchOrc 0x18, 0xfff0707f, .opcode, .insnAlias⟩,
  ⟨.orc4_w, some rv64, .xbp, [.d, .s], matchOrc 0x1c, 0xfff0707f, .opcode, .insnAlias⟩,
  ⟨.orc2_w, some rv64, .xbp, [.d, .s], matchOrc 0x1e, 0xfff0707f, .opcode, .insnAlias⟩,
  ⟨.orc_w, some rv64, .xbp, [.d, .s], matchOrc 0x1f, 0xfff0707f, .opcode, .insnAlias⟩,
  ⟨.grev, none, .xbp, [.d, .s, .t], 0x68005033, 0xfe00707f, .opcode, .plain⟩,
  ⟨.grev, none, .xbp, [.d, .s, .shamt], 0x68005013, 0xfc00707f, .opcode, .plain⟩,
  ⟨.grevi, none, .xbp, [.d, .s, .shamt], 0x68005013, 0xfc00707f, .opcode, .plain⟩,
  ⟨.rev_p, none, .xbp, [.d, .s], matchRev 0x01, 0xfff0707f, .opcode, .insnAlias⟩,
  ⟨.rev2_n, none, .xbp, [.d, .s], matchRev 0x02, 0xfff0707f, .opcode, .insnAlias⟩,
  ⟨.rev_n, none, .xbp, [.d, .s], matchRev 0x03, 0xfff0707f, .opcode, .insnAlias⟩,
  ⟨.rev4_b, none, .xbp, [.d, .s], matchRev 0x04, 0xfff0707f, .opcode, .insnAlias⟩,
  ⟨.rev2_b, none, .xbp, [.d, .s], matchRev 0x06, 0xfff0707f, .opcode, .insnAlias⟩,
  ⟨.rev_b, none, .xbp, [.d, .s], matchRev 0x07, 0xfff0707f, .opcode, .insnAlias⟩,
  ⟨.rev8_h, none, .xbp, [.d, .s], matchRev 0x08, 0xfff0707f, .opcode, .insnAlias⟩,
  ⟨.rev8_h, none, .zbpbo, [.d, .s], matchRev 0x08, 0xfff0707f, .opcode, .plain⟩,
  ⟨.rev4_h, none, .xbp, [.d, .s], matchRev 0x0c, 0xfff0707f, .opcode, .insnAlias⟩,
  ⟨.rev2_h, none, .xbp, [.d, .s], matchRev 0x0e, 0xfff0707f, .opcode, .insnAlias⟩,
  ⟨.rev_h, none, .xbp, [.d, .s], matchRev 0x0f, 0xfff0707f, .opcode, .insnAlias⟩,
  ⟨.rev32, some rv64, .xbp, [.d, .s], matchRev 0x20, 0xfff0707f, .opcode, .insnAlias⟩,
  ⟨.rev16, some rv32, .xbp, [.d, .s], matchRev 0x10, 0xfff0707f, .opcode, .insnAlias⟩,
  ⟨.rev16, some rv64, .xbp, [.d, .s], matchRev 0x30, 0xfff0707f, .opcode, .insnAlias⟩,
  ⟨.rev4, some rv32, .xbp, [.d, .s], matchRev 0x1c, 0xfff0707f, .opcode, .insnAlias⟩,
  ⟨.rev4, some rv64, .xbp, [.d, .s], matchRev 0x3c, 0xfff0707f, .opcode, .insnAlias⟩,
  ⟨.rev2, some rv32, .xbp, [.d, .s], matchRev 0x1e, 0xfff0707f, .opcode, .insnAlias⟩,
  ⟨.rev2, some rv64, .xbp, [.d, .s], matchRev 0x3e, 0xfff0707f, .opcode, .insnAlias⟩,
  ⟨.rev, some rv32, .xbp, [.d, .s], matchRev 0x1f, 0xfff0707f, .opcode, .insnAlias⟩,
  ⟨.rev, some rv64, .xbp, [.d, .s], matchRev 0x3f, 0xfff0707f, .opcode, .insnAlias⟩,
  ⟨.rev, some rv32, .zbpbo, [.d, .s], matchRev 0x1f, 0xfff0707f, .opcode, .plain⟩,
  ⟨.rev, some rv64, .zbpbo, [.d, .s], matchRev 0x3f, 0xfff0707f, .opcode, .plain⟩,
  ⟨.rev16_w, some rv64, .xbp, [.d, .s], matchRev 0x10, 0xfff0707f, .opcode, .insnAlias⟩,
  ⟨.rev8_w, some rv64, .xbp, [.d, .s], matchRev 0x18, 0xfff0707f, .opcode, .insnAlias⟩,
  ⟨.rev4_w, some rv64, .xbp, [.d, .s], matchRev 0x1c, 0xfff0707f, .opcode, .insnAlias⟩,
  ⟨.rev2_w, some rv64, .xbp, [.d, .s], matchRev 0x1e, 0xfff0707f, .opcode, .insnAlias⟩,
  ⟨.rev_w, some rv64, .xbp, [.d, .s], matchRev 0x1f, 0xfff0707f, .opcode, .insnAlias⟩,
  ⟨.zip, some rv32, .zbkb, [.d, .s], 0x08f01013, 0xfff0707f, .opcode, .plain⟩,
  ⟨.zip, some rv32, .xbp, [.d, .s], matchZip 0x0f, 0xfff0707f, .opcode, .insnAlias⟩,
  ⟨.zip, some rv64, .xbp, [.d, .s], matchZip 0x1f, 0xfff0707f, .opcode, .insnAlias⟩,
  ⟨.unzip, some rv32, .zbkb, [.d, .s], 0x08f05013, 0xfff0707f, .opcode, .plain⟩,
  ⟨.unzip, some rv32, .xbp, [.d, .s], matchUnzip 0x0f, 0xfff0707f, .opcode, .insnAlias⟩,
  ⟨.unzip, some rv64, .xbp, [.d, .s], matchUnzip 0x1f, 0xfff0707f, .opcode, .insnAlias⟩,
  ⟨.pack, none, .zbkb, [.d, .s, .t], 0x08004033, 0xfe00707f, .opcode, .plain⟩,
  ⟨.pack, none, .xbp, [.d, .s, .t], 0x08004033, 0xfe00707f, .opcode, .plain⟩,
  ⟨.pack, none, .zbpbo, [.d, .s, .t], 0x08004033, 0xfe00707f, .opcode, .plain⟩,
  ⟨.packu, none, .xbp, [.d, .s, .t], 0x48004033, 0xfe00707f, .opcode, .plain⟩,
  ⟨.packu, none, .zbpbo, [.d, .s, .t], 0x48004033, 0xfe00707f, .opcode, .plain⟩,
  ⟨.packh, none, .zbkb, [.d, .s, .t], 0x08007033, 0xfe00707f, .opcode, .plain⟩,
  ⟨.packh, none, .xbp, [.d, .s, .t], 0x08007033, 0xfe00707f, .opcode, .plain⟩,
  ⟨.packw, some rv64, .zbkb, [.d, .s, .t], 0x0800403b, 0xfe00707f, .opcode, .plain⟩,
  ⟨.packw, some rv64, .xbp, [.d, .s, .t], 0x0800403b, 0xfe00707f, .opcode, .plain⟩,
  ⟨.packuw, some rv64, .xbp, [.d, .s, .t], 0x4800403b, 0xfe00707f, .opcode, .plain⟩,
  ⟨.shfl, none, .xbp, [.d, .s, .t], 0x08001033, 0xfe00707f, .opcode, .plain⟩,
  ⟨.shfl, none, .xbp, [.d, .s, .shamtw], 0x08001013, 0xfe00707f, .opcode, .plain⟩,
  ⟨.shfli, none, .xbp, [.d, .s, .shamtw], 0x08001013, 0xfe00707f, .opcode, .plain⟩,
  ⟨.zip_n, none, .xbp, [.d, .s], matchZip 0x01, 0xfff0707f, .opcode, .insnAlias⟩,
  ⟨.zip2_b, none, .xbp, [.d, .s], matchZip 0x02, 0xfff0707f, .opcode, .insnAlias⟩,
  ⟨.zip_b, none, .xbp, [.d, .s], matchZip 0x03, 0xfff0707f, .opcode, .insnAlias⟩,
  ⟨.zip4_h, none, .xbp, [.d, .s], matchZip 0x04, 0xfff0707f, .opcode, .insnAlias⟩,
  ⟨.zip2_h, none, .xbp, [.d, .s], matchZip 0x06, 0xfff0707f, .opcode, .insnAlias⟩,
  ⟨.zip_h, none, .xbp, [.d, .s], matchZip 0x07, 0xfff0707f, .opcode, .insnAlias⟩,
  ⟨.zip16, some rv64, .xbp, [.d, .s], matchZip 0x10, 0xfff0707f, .opcode, .insnAlias⟩,
  ⟨.zip8, some rv32, .xbp, [.d, .s], matchZip 0x08, 0xfff0707f, .opcode, .insnAlias⟩,
  ⟨.zip8, some rv64, .xbp, [.d, .s], matchZip 0x18, 0xfff0707f, .opcode, .insnAlias⟩,
  ⟨.zip4, some rv32, .xbp, [.d, .s], matchZip 0x0c, 0xfff0707f, .opcode, .insnAlias⟩,
  ⟨.zip4, some rv64, .xbp, [.d, .s], matchZip 0x1c, 0xfff0707f, .opcode, .insnAlias⟩,
  ⟨.zip2, some rv32, .xbp, [.d, .s], matchZip 0x0e, 0xfff0707f, .opcode, .insnAlias⟩,
  ⟨.zip2, some rv64, .xbp, [.d, .s], matchZip 0x1e, 0xfff0707f, .opcode, .insnAlias⟩,
  ⟨.zip8_w, some rv64, .xbp, [.d, .s], matchZip 0x08, 0xfff0707f, .opcode, .insnAlias⟩,
  ⟨.zip4_w, some rv64, .xbp, [.d, .s], matchZip 0x0c, 0xfff0707f, .opcode, .insnAlias⟩,
  ⟨.zip2_w, some rv64, .xbp, [.d, .s], matchZip 0x0e, 0xfff0707f, .opcode, .insnAlias⟩,
  ⟨.zip_w, some rv64, .xbp, [.d, .s], matchZip 0x0f, 0xfff0707f, .opcode, .insnAlias⟩,
  ⟨.unshfl, none, .xbp, [.d, .s, .t], 0x08005033, 0xfe00707f, .opcode, .plain⟩,
  ⟨.unshfl, none, .xbp, [.d, .s, .shamtw], 0x08005013, 0xfe00707f, .opcode, .plain⟩,
  ⟨.unshfli, none, .xbp, [.d, .s, .shamtw], 0x08005013, 0xfe00707f, .opcode, .plain⟩,
  ⟨.unzip_n, none, .xbp, [.d, .s], matchUnzip 0x01, 0xfff0707f, .opcode, .insnAlias⟩,
  ⟨.unzip2_b, none, .xbp, [.d, .s], matchUnzip 0x02, 0xfff0707f, .opcode, .insnAlias⟩,
  ⟨.unzip_b, none, .xbp, [.d, .s], matchUnzip 0x03, 0xfff0707f, .opcode, .insnAlias⟩,
  ⟨.unzip4_h, none, .xbp, [.d, .s], matchUnzip 0x04, 0xfff0707f, .opcode, .insnAlias⟩,
  ⟨.unzip2_h, none, .xbp, [.d, .s], matchUnzip 0x06, 0xfff0707f, .opcode, .insnAlias⟩,
  ⟨.unzip_h, none, .xbp, [.d, .s], matchUnzip 0x07, 0xfff0707f, .opcode, .insnAlias⟩,
  ⟨.unzip16, some rv64, .xbp, [.d, .s], matchUnzip 0x10, 0xfff0707f, .opcode, .insnAlias⟩,
  ⟨.unzip8, some rv32, .xbp, [.d, .s], matchUnzip 0x08, 0xfff0707f, .opcode, .insnAlias⟩,
  ⟨.unzip8, some rv64, .xbp, [.d, .s], matchUnzip 0x18, 0xfff0707f, .opcode, .insnAlias⟩,
  ⟨.unzip4, some rv32, .xbp, [.d, .s], matchUnzip 0x0c, 0xfff0707f, .opcode, .insnAlias⟩,
  ⟨.unzip4, some rv64, .xbp, [.d, .s], matchUnzip 0x1c, 0xfff0707f, .opcode, .insnAlias⟩,
  ⟨.unzip2, some rv32, .xbp, [.d, .s], matchUnzip 0x0e, 0xfff0707f, .opcode, .insnAlias⟩,
  ⟨.unzip2, some rv64, .xbp, [.d, .s], matchUnzip 0x1e, 0xfff0707f, .opcode, .insnAlias⟩,
  ⟨.unzip8_w, some rv64, .xbp, [.d, .s], matchUnzip 0x08, 0xfff0707f, .opcode, .insnAlias⟩,
  ⟨.unzip4_w, some rv64, .xbp, [.d, .s], matchUnzip 0x0c, 0xfff0707f, .opcode, .insnAlias⟩,
  ⟨.unzip2_w, some rv64, .xbp, [.d, .s], matchUnzip 0x0e, 0xfff0707f, .opcode, .insnAlias⟩,
  ⟨.unzip_w, some rv64, .xbp, [.d, .s], matchUnzip 0x0f, 0xfff0707f, .opcode, .insnAlias⟩,
  ⟨.xperm_n, none, .xbp, [.d, .s, .t], 0x28002033, 0xfe00707f, .opcode, .plain⟩,
  ⟨.xperm_b, none, .xbp, [.d, .s, .t], 0x28004033, 0xfe00707f, .opcode, .plain⟩,
  ⟨.xperm_h, none, .xbp, [.d, .s, .t], 0x28006033, 0xfe00707f, .opcode, .plain⟩,
  ⟨.xperm_w, none, .xbp, [.d, .s, .t], 0x28000033, 0xfe00707f, .opcode, .plain⟩,
  ⟨.rev8, some rv32, .zbbOrZbkb, [.d, .s], 0x69805013, 0xfff0707f, .opcode, .plain⟩,
  ⟨.rev8, some rv64, .zbbOrZbkb, [.d, .s], 0x6b805013, 0xfff0707f, .opcode, .plain⟩,
  ⟨.rev8, some rv32, .xbp, [.d, .s], matchRev 0x18, 0xfff0707f, .opcode, .insnAlias⟩,
  ⟨.rev8, some rv64, .xbp, [.d, .s], matchRev 0x38, 0xfff0707f, .opcode, .insnAlias⟩,
  ⟨.cmix, none, .zbpbo, [.d, .t, .s, .r], 0x06001033, 0x0600707f, .opcode, .plain⟩,
  ⟨.fsr, some rv32, .zbpbo, [.d, .s, .r, .t], 0x04005033, 0x0600707f, .opcode, .plain⟩,
  ⟨.fsri, some rv32, .zbpbo, [.d, .s, .r, .shamt], 0x04005013, 0x0400707f, .opcode, .plain⟩,
  ⟨.fsrw, some rv64, .zbpbo, [.d, .s, .r, .t], 0x0400503b, 0x0600707f, .opcode, .plain⟩]

/-- The hunk headed "P extension". -/
def pExtension : List Opcode := [
  ⟨.add16, none, .zpn, [.d, .s, .t], 0x40000077, 0xfe00707f, .opcode, .plain⟩,
  ⟨.radd16, none, .zpn, [.d, .s, .t], 0x00000077, 0xfe00707f, .opcode, .plain⟩,
  ⟨.uradd16, none, .zpn, [.d, .s, .t], 0x20000077, 0xfe00707f, .opcode, .plain⟩,
  ⟨.kadd16, none, .zpn, [.d, .s, .t], 0x10000077, 0xfe00707f, .opcode, .plain⟩,
  ⟨.ukadd16, none, .zpn, [.d, .s, .t], 0x30000077, 0xfe00707f, .opcode, .plain⟩,
  ⟨.sub16, none, .zpn, [.d, .s, .t], 0x42000077, 0xfe00707f, .opcode, .plain⟩,
  ⟨.rsub16, none, .zpn, [.d, .s, .t], 0x02000077, 0xfe00707f, .opcode, .plain⟩,
  ⟨.ursub16, none, .zpn, [.d, .s, .t], 0x22000077, 0xfe00707f, .opcode, .plain⟩,
  ⟨.ksub16, none, .zpn, [.d, .s, .t], 0x12000077, 0xfe00707f, .opcode, .plain⟩,
  ⟨.uksub16, none, .zpn, [.d, .s, .t], 0x32000077, 0xfe00707f, .opcode, .plain⟩,
  ⟨.cras16, none, .zpn, [.d, .s, .t], 0x44000077, 0xfe00707f, .opcode, .plain⟩,
  ⟨.rcras16, none, .zpn, [.d, .s, .t], 0x04000077, 0xfe00707f, .opcode, .plain⟩,
  ⟨.urcras16, none, .zpn, [.d, .s, .t], 0x24000077, 0xfe00707f, .opcode, .plain⟩,
  ⟨.kcras16, none, .zpn, [.d, .s, .t], 0x14000077, 0xfe00707f, .opcode, .plain⟩,
  ⟨.ukcras16, none, .zpn, [.d, .s, .t], 0x34000077, 0xfe00707f, .opcode, .plain⟩,
  ⟨.crsa16, none, .zpn, [.d, .s, .t], 0x46000077, 0xfe00707f, .opcode, .plain⟩,
  ⟨.rcrsa16, none, .zpn, [.d, .s, .t], 0x06000077, 0xfe00707f, .opcode, .plain⟩,
  ⟨.urcrsa16, none, .zpn, [.d, .s, .t], 0x26000077, 0xfe00707f, .opcode, .plain⟩,
  ⟨.kcrsa16, none, .zpn, [.d, .s, .t], 0x16000077, 0xfe00707f, .opcode, .plain⟩,
  ⟨.ukcrsa16, none, .zpn, [.d, .s, .t], 0x36000077, 0xfe00707f, .opcode, .plain⟩,
  ⟨.stas16, none, .zpn, [.d, .s, .t], 0xf4002077, 0xfe00707f, .opcode, .plain⟩,
  ⟨.rstas16, none, .zpn, [.d, .s, .t], 0xb4002077, 0xfe00707f, .opcode, .plain⟩,
  ⟨.urstas16, none, .zpn, [.d, .s, .t], 0xd4002077, 0xfe00707f, .opcode, .plain⟩,
  ⟨.kstas16, none, .zpn, [.d, .s, .t], 0xc4002077, 0xfe00707f, .opcode, .plain⟩,
  ⟨.ukstas16, none, .zpn, [.d, .s, .t], 0xe4002077, 0xfe00707f, .opcode, .plain⟩,
  ⟨.stsa16, none, .zpn, [.d, .s, .t], 0xf6002077, 0xfe00707f, .opcode, .plain⟩,
  ⟨.rstsa16, none, .zpn, [.d, .s, .t], 0xb6002077, 0xfe00707f, .opcode, .plain⟩,
  ⟨.urstsa16, none, .zpn, [.d, .s, .t], 0xd6002077, 0xfe00707f, .opcode, .plain⟩,
  ⟨.kstsa16, none, .zpn, [.d, .s, .t], 0xc6002077, 0xfe00707f, .opcode, .plain⟩,
  ⟨.ukstsa16, none, .zpn, [.d, .s, .t], 0xe6002077, 0xfe00707f, .opcode, .plain⟩,
  ⟨.add8, none, .zpn, [.d, .s, .t], 0x48000077, 0xfe00707f, .opcode, .plain⟩,
  ⟨.radd8, none, .zpn, [.d, .s, .t], 0x08000077, 0xfe00707f, .opcode, .plain⟩,
  ⟨.uradd8, none, .zpn, [.d, .s, .t], 0x28000077, 0xfe00707f, .opcode, .plain⟩,
  ⟨.kadd8, none, .zpn, [.d, .s, .t], 0x18000077, 0xfe00707f, .opcode, .plain⟩,
  ⟨.ukadd8, none, .zpn, [.d, .s, .t], 0x38000077, 0xfe00707f, .opcode, .plain⟩,
  ⟨.sub8, none, .zpn, [.d, .s, .t], 0x4a000077, 0xfe00707f, .opcode, .plain⟩,
  ⟨.rsub8, none, .zpn, [.d, .s, .t], 0x0a000077, 0xfe00707f, .opcode, .plain⟩,
  ⟨.ursub8, none, .zpn, [.d, .s, .t], 0x2a000077, 0xfe00707f, .opcode, .plain⟩,
  ⟨.ksub8, none, .zpn, [.d, .s, .t], 0x1a000077, 0xfe00707f, .opcode, .plain⟩,
  ⟨.uksub8, none, .zpn, [.d, .s, .t], 0x3a000077, 0xfe00707f, .opcode, .plain⟩,
  ⟨.sra16, none, .zpn, [.d, .s, .t], 0x50000077, 0xfe00707f, .opcode, .plain⟩,
  ⟨.srai16, none, .zpn, [.d, .s, .i4], 0x70000077, 0xff00707f, .opcode, .plain⟩,
  ⟨.sra16_u, none, .zpn, [.d, .s, .t], 0x60000077, 0xfe00707f, .opcode, .plain⟩,
  ⟨.srai16_u, none, .zpn, [.d, .s, .i4], 0x71000077, 0xff00707f, .opcode, .plain⟩,
  ⟨.srl16, none, .zpn, [.d, .s, .t], 0x52000077, 0xfe00707f, .opcode, .plain⟩,
  ⟨.srli16, none, .zpn, [.d, .s, .i4], 0x72000077, 0xff00707f, .opcode, .plain⟩,
  ⟨.srl16_u, none, .zpn, [.d, .s, .t], 0x62000077, 0xfe00707f, .opcode, .plain⟩,
  ⟨.srli16_u, none, .zpn, [.d, .s, .i4], 0x73000077, 0xff00707f, .opcode, .plain⟩,
  ⟨.sll16, none, .zpn, [.d, .s, .t], 0x54000077, 0xfe00707f, .opcode, .plain⟩,
  ⟨.slli16, none, .zpn, [.d, .s, .i4], 0x74000077, 0xff00707f, .opcode, .plain⟩,
  ⟨.ksll16, none, .zpn, [.d, .s, .t], 0x64000077, 0xfe00707f, .opcode, .plain⟩,
  ⟨.kslli16, none, .zpn, [.d, .s, .i4], 0x75000077, 0xff00707f, .opcode, .plain⟩,
  ⟨.kslra16, none, .zpn, [.d, .s, .t], 0x56000077, 0xfe00707f, .opcode, .plain⟩,
  ⟨.kslra16_u, none, .zpn, [.d, .s, .t], 0x66000077, 0xfe00707f, .opcode, .plain⟩,
  ⟨.sra8, none, .zpn, [.d, .s, .t], 0x58000077, 0xfe00707f, .opcode, .plain⟩,
  ⟨.srai8, none, .zpn, [.d, .s, .i3], 0x78000077, 0xff80707f, .opcode, .plain⟩,
  ⟨.sra8_u, none, .zpn, [.d, .s, .t], 0x68000077, 0xfe00707f, .opcode, .plain⟩,
  ⟨.srai8_u, none, .zpn, [.d, .s, .i3], 0x78800077, 0xff80707f, .opcode, .plain⟩,
  ⟨.srl8, none, .zpn, [.d, .s, .t], 0x5a000077, 0xfe00707f, .opcode, .plain⟩,
  ⟨.srli8, none, .zpn, [.d, .s, .i3], 0x7a000077, 0xff80707f, .opcode, .plain⟩,
  ⟨.srl8_u, none, .zpn, [.d, .s, .t], 0x6a000077, 0xfe00707f, .opcode, .plain⟩,
  ⟨.srli8_u, none, .zpn, [.d, .s, .i3], 0x7a800077, 0xff80707f, .opcode, .plain⟩,
  ⟨.sll8, none, .zpn, [.d, .s, .t], 0x5c000077, 0xfe00707f, .opcode, .plain⟩,
  ⟨.slli8, none, .zpn, [.d, .s, .i3], 0x7c000077, 0xff80707f, .opcode, .plain⟩,
  ⟨.ksll8, none, .zpn, [.d, .s, .t], 0x6c000077, 0xfe00707f, .opcode, .plain⟩,
  ⟨.kslli8, none, .zpn, [.d, .s, .i3], 0x7c800077, 0xff80707f, .opcode, .plain⟩,
  ⟨.kslra8, none, .zpn, [.d, .s, .t], 0x5e000077, 0xfe00707f, .opcode, .plain⟩,
  ⟨.kslra8_u, none, .zpn, [.d, .s, .t], 0x6e000077, 0xfe00707f, .opcode, .plain⟩,
  ⟨.cmpeq16, none, .zpn, [.d, .s, .t], 0x4c000077, 0xfe00707f, .opcode, .plain⟩,
  ⟨.scmplt16, none, .zpn, [.d, .s, .t], 0x0c000077, 0xfe00707f, .opcode, .plain⟩,
  ⟨.scmple16, none, .zpn, [.d, .s, .t], 0x1c000077, 0xfe00707f, .opcode, .plain⟩,
  ⟨.ucmplt16, none, .zpn, [.d, .s, .t], 0x2c000077, 0xfe00707f, .opcode, .plain⟩,
  ⟨.ucmple16, none, .zpn, [.d, .s, .t], 0x3c000077, 0xfe00707f, .opcode, .plain⟩,
  ⟨.cmpeq8, none, .zpn, [.d, .s, .t], 0x4e000077, 0xfe00707f, .opcode, .plain⟩,
  ⟨.scmplt8, none, .zpn, [.d, .s, .t], 0x0e000077, 0xfe00707f, .opcode, .plain⟩,
  ⟨.scmple8, none, .zpn, [.d, .s, .t], 0x1e000077, 0xfe00707f, .opcode, .plain⟩,
  ⟨.ucmplt8, none, .zpn, [.d, .s, .t], 0x2e000077, 0xfe00707f, .opcode, .plain⟩,
  ⟨.ucmple8, none, .zpn, [.d, .s, .t], 0x3e000077, 0xfe00707f, .opcode, .plain⟩,
  ⟨.khm16, none, .zpn, [.d, .s, .t], 0x86000077, 0xfe00707f, .opcode, .plain⟩,
  ⟨.khmx16, none, .zpn, [.d, .s, .t], 0x96000077, 0xfe00707f, .opcode, .plain⟩,
  ⟨.khm8, none, .zpn, [.d, .s, .t], 0x8e000077, 0xfe00707f, .opcode, .plain⟩,
  ⟨.khmx8, none, .zpn, [.d, .s, .t], 0x9e000077, 0xfe00707f, .opcode, .plain⟩,
  ⟨.smin16, none, .zpn, [.d, .s, .t], 0x80000077, 0xfe00707f, .opcode, .plain⟩,
  ⟨.umin16, none, .zpn, [.d, .s, .t], 0x90000077, 0xfe00707f, .opcode, .plain⟩,
  ⟨.smax16, none, .zpn, [.d, .s, .t], 0x82000077, 0xfe00707f, .opcode, .plain⟩,
  ⟨.umax16, none, .zpn, [.d, .s, .t], 0x92000077, 0xfe00707f, .opcode, .plain⟩,
  ⟨.sclip16, none, .zpn, [.d, .s, .i4], 0x84000077, 0xff00707f, .opcode, .plain⟩,
  ⟨.uclip16, none, .zpn, [.d, .s, .i4], 0x85000077, 0xff00707f, .opcode, .plain⟩,
  ⟨.kabs16, none, .zpn, [.d, .s], 0xad100077, 0xfff0707f, .opcode, .plain⟩,
  ⟨.clrs16, none, .zpn, [.d, .s], 0xae800077, 0xfff0707f, .opcode, .plain⟩,
  ⟨.clz16, none, .zpn, [.d, .s], 0xae900077, 0xfff0707f, .opcode, .plain⟩,
  ⟨.smin8, none, .zpn, [.d, .s, .t], 0x88000077, 0xfe00707f, .opcode, .plain⟩,
  ⟨.umin8, none, .zpn, [.d, .s, .t], 0x98000077, 0xfe00707f, .opcode, .plain⟩,
  ⟨.smax8, none, .zpn, [.d, .s, .t], 0x8a000077, 0xfe00707f, .opcode, .plain⟩,
  ⟨.umax8, none, .zpn, [.d, .s, .t], 0x9a000077, 0xfe00707f, .opcode, .plain⟩,
  ⟨.sclip8, none, .zpn, [.d, .s, .i3], 0x8c000077, 0xff80707f, .opcode, .plain⟩,
  ⟨.uclip8, none, .zpn, [.d, .s, .i3], 0x8d000077, 0xff80707f, .opcode, .plain⟩,
  ⟨.kabs8, none, .zpn, [.d, .s], 0xad000077, 0xfff0707f, .opcode, .plain⟩,
  ⟨.clrs8, none, .zpn, [.d, .s], 0xae000077, 0xfff0707f, .opcode, .plain⟩,
  ⟨.clz8, none, .zpn, [.d, .s], 0xae100077, 0xfff0707f, .opcode, .plain⟩,
  ⟨.sunpkd810, none, .zpn, [.d, .s], 0xac800077, 0xfff0707f, .opcode, .plain⟩,
  ⟨.sunpkd820, none, .zpn, [.d, .s], 0xac900077, 0xfff0707f, .opcode, .plain⟩,
  ⟨.sunpkd830, none, .zpn, [.d, .s], 0xaca00077, 0xfff0707f, .opcode, .plain⟩,
  ⟨.sunpkd831, none, .zpn, [.d, .s], 0xacb00077, 0xfff0707f, .opcode, .plain⟩,
  ⟨.sunpkd832, none, .zpn, [.d, .s], 0xad300077, 0xfff0707f, .opcode, .plain⟩,
  ⟨.zunpkd810, none, .zpn, [.d, .s], 0xacc00077, 0xfff0707f, .opcode, .plain⟩,
  ⟨.zunpkd820, none, .zpn, [.d, .s], 0xacd00077, 0xfff0707f, .opcode, .plain⟩,
  ⟨.zunpkd830, none, .zpn, [.d, .s], 0xace00077, 0xfff0707f, .opcode, .plain⟩,
  ⟨.zunpkd831, none, .zpn, [.d, .s], 0xacf00077, 0xfff0707f, .opcode, .plain⟩,
  ⟨.zunpkd832, none, .zpn, [.d, .s], 0xad700077, 0xfff0707f, .opcode, .plain⟩,
  ⟨.pkbb16, some rv32, .zpn, [.d, .t, .s], 0x08004033, 0xfe00707f, .opcode, .plain⟩,
  ⟨.pkbb16, some rv64, .zpn, [.d, .s, .t], 0x0e001077, 0xfe00707f, .opcode, .plain⟩,
  ⟨.pkbt16, none, .zpn, [.d, .s, .t], 0x1e001077, 0xfe00707f, .opcode, .plain⟩,
  ⟨.pktb16, none, .zpn, [.d, .s, .t], 0x3e001077, 0xfe00707f, .opcode, .plain⟩,
  ⟨.pktt16, some rv32, .zpn, [.d, .t, .s], 0x48004033, 0xfe00707f, .opcode, .plain⟩,
  ⟨.pktt16, some rv64, .zpn, [.d, .s, .t], 0x2e001077, 0xfe00707f, .opcode, .plain⟩,
  ⟨.smmul, some rv32, .zpn, [.d, .s, .t], 0x02001033, 0xfe00707f, .opcode, .plain⟩,
  ⟨.smmul, some rv64, .zpn, [.d, .s, .t], 0x40001077, 0xfe00707f, .opcode, .plain⟩,
  ⟨.smmul_u, none, .zpn, [.d, .s, .t], 0x50001077, 0xfe00707f, .opcode, .plain⟩,
  ⟨.kmmac, none, .zpn, [.d, .s, .t], 0x60001077, 0xfe00707f, .opcode, .plain⟩,
  ⟨.kmmac_u, none, .zpn, [.d, .s, .t], 0x70001077, 0xfe00707f, .opcode, .plain⟩,
  ⟨.kmmsb, none, .zpn, [.d, .s, .t], 0x42001077, 0xfe00707f, .opcode, .plain⟩,
  ⟨.kmmsb_u, none, .zpn, [.d, .s, .t], 0x52001077, 0xfe00707f, .opcode, .plain⟩,
  ⟨.kwmmul, none, .zpn, [.d, .s, .t], 0x62001077, 0xfe00707f, .opcode, .plain⟩,
  ⟨.kwmmul_u, none, .zpn, [.d, .s, .t], 0x72001077, 0xfe00707f, .opcode, .plain⟩,
  ⟨.smmwb, none, .zpn, [.d, .s, .t], 0x44001077, 0xfe00707f, .opcode, .plain⟩,
  ⟨.smmwb_u, none, .zpn, [.d, .s, .t], 0x54001077, 0xfe00707f, .opcode, .plain⟩,
  ⟨.smmwt, none, .zpn, [.d, .s, .t], 0x64001077, 0xfe00707f, .opcode, .plain⟩,
  ⟨.smmwt_u, none, .zpn, [.d, .s, .t], 0x74001077, 0xfe00707f, .opcode, .plain⟩,
  ⟨.kmmawb, none, .zpn, [.d, .s, .t], 0x46001077, 0xfe00707f, .opcode, .plain⟩,
  ⟨.kmmawb_u, none, .zpn, [.d, .s, .t], 0x56001077, 0xfe00707f, .opcode, .plain⟩,
  ⟨.kmmawt, none, .zpn, [.d, .s, .t], 0x66001077, 0xfe00707f, .opcode, .plain⟩,
  ⟨.kmmawt_u, none, .zpn, [.d, .s, .t], 0x76001077, 0xfe00707f, .opcode, .plain⟩,
  ⟨.kmmwb2, none, .zpn, [.d, .s, .t], 0x8e001077, 0xfe00707f, .opcode, .plain⟩,
  ⟨.kmmwb2_u, none, .zpn, [.d, .s, .t], 0x9e001077, 0xfe00707f, .opcode, .plain⟩,
  ⟨.kmmwt2, none, .zpn, [.d, .s, .t], 0xae001077, 0xfe00707f, .opcode, .plain⟩,
  ⟨.kmmwt2_u, none, .zpn, [.d, .s, .t], 0xbe001077, 0xfe00707f, .opcode, .plain⟩,
  ⟨.kmmawb2, none, .zpn, [.d, .s, .t], 0xce001077, 0xfe00707f, .opcode, .plain⟩,
  ⟨.kmmawb2_u, none, .zpn, [.d, .s, .t], 0xde001077, 0xfe00707f, .opcode, .plain⟩,
  ⟨.kmmawt2, none, .zpn, [.d, .s, .t], 0xee001077, 0xfe00707f, .opcode, .plain⟩,
  ⟨.kmmawt2_u, none, .zpn, [.d, .s, .t], 0xfe001077, 0xfe00707f, .opcode, .plain⟩,
  ⟨.smbb32, none, .zpn, [.d, .s, .t], 0xe0001077, 0xfe00707f, .opcode, .insnAlias⟩,
  ⟨.smbt32, none, .zpn, [.d, .s, .t], 0x18002077, 0xfe00707f, .opcode, .plain⟩,
  ⟨.smtt32, none, .zpn, [.d, .s, .t], 0x28002077, 0xfe00707f, .opcode, .plain⟩,
  ⟨.smbb16, none, .zpn, [.d, .s, .t], 0x08001077, 0xfe00707f, .opcode, .plain⟩,
  ⟨.smbt16, none, .zpn, [.d, .s, .t], 0x18001077, 0xfe00707f, .opcode, .plain⟩,
  ⟨.smtt16, none, .zpn, [.d, .s, .t], 0x28001077, 0xfe00707f, .opcode, .plain⟩,
  ⟨.kmda, none, .zpn, [.d, .s, .t], 0x38001077, 0xfe00707f, .opcode, .plain⟩,
  ⟨.kmxda, none, .zpn, [.d, .s, .t], 0x3a001077, 0xfe00707f, .opcode, .plain⟩,
  ⟨.smds, none, .zpn, [.d, .s, .t], 0x58001077, 0xfe00707f, .opcode, .plain⟩,
  ⟨.smdrs, none, .zpn, [.d, .s, .t], 0x68001077, 0xfe00707f, .opcode, .plain⟩,
  ⟨.smxds, none, .zpn, [.d, .s, .t], 0x78001077, 0xfe00707f, .opcode, .plain⟩,
  ⟨.kmabb, none, .zpn, [.d, .s, .t], 0x5a001077, 0xfe00707f, .opcode, .plain⟩,
  ⟨.kmabt, none, .zpn, [.d, .s, .t], 0x6a001077, 0xfe00707f, .opcode, .plain⟩,
  ⟨.kmatt, none, .zpn, [.d, .s, .t], 0x7a001077, 0xfe00707f, .opcode, .plain⟩,
  ⟨.kmada, none, .zpn, [.d, .s, .t], 0x48001077, 0xfe00707f, .opcode, .plain⟩,
  ⟨.kmaxda, none, .zpn, [.d, .s, .t], 0x4a001077, 0xfe00707f, .opcode, .plain⟩,
  ⟨.kmads, none, .zpn, [.d, .s, .t], 0x5c001077, 0xfe00707f, .opcode, .plain⟩,
  ⟨.kmadrs, none, .zpn, [.d, .s, .t], 0x6c001077, 0xfe00707f, .opcode, .plain⟩,
  ⟨.kmaxds, none, .zpn, [.d, .s, .t], 0x7c001077, 0xfe00707f, .opcode, .plain⟩,
  ⟨.kmsda, none, .zpn, [.d, .s, .t], 0x4c001077, 0xfe00707f, .opcode, .plain⟩,
  ⟨.kmsxda, none, .zpn, [.d, .s, .t], 0x4e001077, 0xfe00707f, .opcode, .plain⟩,
  ⟨.sclip32, none, .zpn, [.d, .s, .shamtw], 0xe4000077, 0xfe00707f, .opcode, .plain⟩,
  ⟨.uclip32, none, .zpn, [.d, .s, .shamtw], 0xf4000077, 0xfe00707f, .opcode, .plain⟩,
  ⟨.clrs32, none, .zpn, [.d, .s], 0xaf800077, 0xfff0707f, .opcode, .plain⟩,
  ⟨.clz32, some rv64, .zpn, [.d, .s], 0xaf900077, 0xfff0707f, .opcode, .plain⟩,
  ⟨.pbsad, none, .zpn, [.d, .s, .t], 0xfc000077, 0xfe00707f, .opcode, .plain⟩,
  ⟨.pbsada, none, .zpn, [.d, .s, .t], 0xfe000077, 0xfe00707f, .opcode, .plain⟩,
  ⟨.smaqa, none, .zpn, [.d, .s, .t], 0xc8000077, 0xfe00707f, .opcode, .plain⟩,
  ⟨.umaqa, none, .zpn, [.d, .s, .t], 0xcc000077, 0xfe00707f, .opcode, .plain⟩,
  ⟨.smaqa_su, none, .zpn, [.d, .s, .t], 0xca000077, 0xfe00707f, .opcode, .plain⟩,
  ⟨.kaddh, none, .zpn, [.d, .s, .t], 0x04001077, 0xfe00707f, .opcode, .plain⟩,
  ⟨.ksubh, none, .zpn, [.d, .s, .t], 0x06001077, 0xfe00707f, .opcode, .plain⟩,
  ⟨.khmbb, none, .zpn, [.d, .s, .t], 0x0c001077, 0xfe00707f, .opcode, .plain⟩,
  ⟨.khmbt, none, .zpn, [.d, .s, .t], 0x1c001077, 0xfe00707f, .opcode, .plain⟩,
  ⟨.khmtt, none, .zpn, [.d, .s, .t], 0x2c001077, 0xfe00707f, .opcode, .plain⟩,
  ⟨.ukaddh, none, .zpn, [.d, .s, .t], 0x14001077, 0xfe00707f, .opcode, .plain⟩,
  ⟨.uksubh, none, .zpn, [.d, .s, .t], 0x16001077, 0xfe00707f, .opcode, .plain⟩,
  ⟨.kaddw, none, .zpn, [.d, .s, .t], 0x00001077, 0xfe00707f, .opcode, .plain⟩,
  ⟨.ukaddw, none, .zpn, [.d, .s, .t], 0x10001077, 0xfe00707f, .opcode, .plain⟩,
  ⟨.ksubw, none, .zpn, [.d, .s, .t], 0x02001077, 0xfe00707f, .opcode, .plain⟩,
  ⟨.uksubw, none, .zpn, [.d, .s, .t], 0x12001077, 0xfe00707f, .opcode, .plain⟩,
  ⟨.kdmbb, none, .zpn, [.d, .s, .t], 0x0a001077, 0xfe00707f, .opcode, .plain⟩,
  ⟨.kdmbt, none, .zpn, [.d, .s, .t], 0x1a001077, 0xfe00707f, .opcode, .plain⟩,
  ⟨.kdmtt, none, .zpn, [.d, .s, .t], 0x2a001077, 0xfe00707f, .opcode, .plain⟩,
  ⟨.kslraw, none, .zpn, [.d, .s, .t], 0x6e001077, 0xfe00707f, .opcode, .plain⟩,
  ⟨.kslraw_u, none, .zpn, [.d, .s, .t], 0x7e001077, 0xfe00707f, .opcode, .plain⟩,
  ⟨.ksllw, none, .zpn, [.d, .s, .t], 0x26001077, 0xfe00707f, .opcode, .plain⟩,
  ⟨.kslliw, none, .zpn, [.d, .s, .shamtw], 0x36001077, 0xfe00707f, .opcode, .plain⟩,
  ⟨.kdmabb, none, .zpn, [.d, .s, .t], 0xd2001077, 0xfe00707f, .opcode, .plain⟩,
  ⟨.kdmabt, none, .zpn, [.d, .s, .t], 0xe2001077, 0xfe00707f, .opcode, .plain⟩,
  ⟨.kdmatt, none, .zpn, [.d, .s, .t], 0xf2001077, 0xfe00707f, .opcode, .plain⟩,
  ⟨.kabsw, none, .zpn, [.d, .s], 0xad400077, 0xfff0707f, .opcode, .plain⟩,
  ⟨.raddw, none, .zpn, [.d, .s, .t], 0x20001077, 0xfe00707f, .opcode, .plain⟩,
  ⟨.uraddw, none, .zpn, [.d, .s, .t], 0x30001077, 0xfe00707f, .opcode, .plain⟩,
  ⟨.rsubw, none, .zpn, [.d, .s, .t], 0x22001077, 0xfe00707f, .opcode, .plain⟩,
  ⟨.ursubw, none, .zpn, [.d, .s, .t], 0x32001077, 0xfe00707f, .opcode, .plain⟩,
  ⟨.rdov, none, .zpn, [.d], 0x00902073, 0xfffff07f, .opcode, .insnAlias⟩,
  ⟨.clrov, none, .zpn, [], 0x0090f073, 0xffffffff, .opcode, .insnAlias⟩,
  ⟨.ave, none, .zpn, [.d, .s, .t], 0xe0000077, 0xfe00707f, .opcode, .plain⟩,
  ⟨.sra_u, none, .zpn, [.d, .s, .t], 0x24001077, 0xfe00707f, .opcode, .plain⟩,
  ⟨.srai_u, none, .zpn, [.d, .s, .shamt], 0xd4001077, 0xfc00707f, .opcode, .plain⟩,
  ⟨.maddr32, none, .zpn, [.d, .s, .t], 0xc4001077, 0xfe00707f, .opcode, .plain⟩,
  ⟨.msubr32, none, .zpn, [.d, .s, .t], 0xc6001077, 0xfe00707f, .opcode, .plain⟩,
  ⟨.insb, none, .zpn, [.d, .s, .ib], 0xac000077, 0xff80707f, .opcode, .plain⟩,
  ⟨.swap8, none, .zpn, [.d, .s], matchRev 0x08, 0xfff0707f, .opcode, .insnAlias⟩,
  ⟨.swap16, none, .zpn, [.d, .v], 0x1e001077, 0xfe00707f, .rs1EqRs2, .insnAlias⟩,
  ⟨.mulr64, none, .zpsfoperand, [.pairD, .s, .t], 0xf0001077, 0xfe00707f, .opcode, .plain⟩,
  ⟨.mulsr64, none, .zpsfoperand, [.pairD, .s, .t], 0xe0001077, 0xfe00707f, .opcode, .plain⟩,
  ⟨.smal, none, .zpsfoperand, [.pairD, .pairS, .t], 0x5e001077, 0xfe00707f, .opcode, .plain⟩,
  ⟨.smalbb, none, .zpsfoperand, [.pairD, .s, .t], 0x88001077, 0xfe00707f, .opcode, .plain⟩,
  ⟨.smalbt, none, .zpsfoperand, [.pairD, .s, .t], 0x98001077, 0xfe00707f, .opcode, .plain⟩,
  ⟨.smaltt, none, .zpsfoperand, [.pairD, .s, .t], 0xa8001077, 0xfe00707f, .opcode, .plain⟩,
  ⟨.smalda, none, .zpsfoperand, [.pairD, .s, .t], 0x8c001077, 0xfe00707f, .opcode, .plain⟩,
  ⟨.smalxda, none, .zpsfoperand, [.pairD, .s, .t], 0x9c001077, 0xfe00707f, .opcode, .plain⟩,
  ⟨.smalds, none, .zpsfoperand, [.pairD, .s, .t], 0x8a001077, 0xfe00707f, .opcode, .plain⟩,
  ⟨.smaldrs, none, .zpsfoperand, [.pairD, .s, .t], 0x9a001077, 0xfe00707f, .opcode, .plain⟩,
  ⟨.smalxds, none, .zpsfoperand, [.pairD, .s, .t], 0xaa001077, 0xfe00707f, .opcode, .plain⟩,
  ⟨.smslda, none, .zpsfoperand, [.pairD, .s, .t], 0xac001077, 0xfe00707f, .opcode, .plain⟩,
  ⟨.smslxda, none, .zpsfoperand, [.pairD, .s, .t], 0xbc001077, 0xfe00707f, .opcode, .plain⟩,
  ⟨.smar64, none, .zpsfoperand, [.pairD, .s, .t], 0x84001077, 0xfe00707f, .opcode, .plain⟩,
  ⟨.smsr64, none, .zpsfoperand, [.pairD, .s, .t], 0x86001077, 0xfe00707f, .opcode, .plain⟩,
  ⟨.umar64, none, .zpsfoperand, [.pairD, .s, .t], 0xa4001077, 0xfe00707f, .opcode, .plain⟩,
  ⟨.umsr64, none, .zpsfoperand, [.pairD, .s, .t], 0xa6001077, 0xfe00707f, .opcode, .plain⟩,
  ⟨.kmar64, none, .zpsfoperand, [.pairD, .s, .t], 0x94001077, 0xfe00707f, .opcode, .plain⟩,
  ⟨.kmsr64, none, .zpsfoperand, [.pairD, .s, .t], 0x96001077, 0xfe00707f, .opcode, .plain⟩,
  ⟨.ukmsr64, none, .zpsfoperand, [.pairD, .s, .t], 0xb6001077, 0xfe00707f, .opcode, .plain⟩,
  ⟨.ukmar64, none, .zpsfoperand, [.pairD, .s, .t], 0xb4001077, 0xfe00707f, .opcode, .plain⟩,
  ⟨.smul16, none, .zpsfoperand, [.pairD, .s, .t], 0xa0000077, 0xfe00707f, .opcode, .plain⟩,
  ⟨.smulx16, none, .zpsfoperand, [.pairD, .s, .t], 0xa2000077, 0xfe00707f, .opcode, .plain⟩,
  ⟨.smul8, none, .zpsfoperand, [.pairD, .s, .t], 0xa8000077, 0xfe00707f, .opcode, .plain⟩,
  ⟨.smulx8, none, .zpsfoperand, [.pairD, .s, .t], 0xaa000077, 0xfe00707f, .opcode, .plain⟩,
  ⟨.umul8, none, .zpsfoperand, [.pairD, .s, .t], 0xb8000077, 0xfe00707f, .opcode, .plain⟩,
  ⟨.umulx8, none, .zpsfoperand, [.pairD, .s, .t], 0xba000077, 0xfe00707f, .opcode, .plain⟩,
  ⟨.umul16, none, .zpsfoperand, [.pairD, .s, .t], 0xb0000077, 0xfe00707f, .opcode, .plain⟩,
  ⟨.umulx16, none, .zpsfoperand, [.pairD, .s, .t], 0xb2000077, 0xfe00707f, .opcode, .plain⟩,
  ⟨.add64, some rv32, .zpsfoperand, [.pairD, .pairS, .pairT], 0xc0001077, 0xfe00707f, .opcode, .plain⟩,
  ⟨.add64, some rv64, .zpsfoperand, [.d, .s, .t], 0x00000033, 0xfe00707f, .opcode, .plain⟩,
  ⟨.radd64, none, .zpsfoperand, [.pairD, .pairS, .pairT], 0x80001077, 0xfe00707f, .opcode, .plain⟩,
  ⟨.uradd64, none, .zpsfoperand, [.pairD, .pairS, .pairT], 0xa0001077, 0xfe00707f, .opcode, .plain⟩,
  ⟨.kadd64, none, .zpsfoperand, [.pairD, .pairS, .pairT], 0x90001077, 0xfe00707f, .opcode, .plain⟩,
  ⟨.ukadd64, none, .zpsfoperand, [.pairD, .pairS, .pairT], 0xb0001077, 0xfe00707f, .opcode, .plain⟩,
  ⟨.sub64, some rv32, .zpsfoperand, [.pairD, .pairS, .pairT], 0xc2001077, 0xfe00707f, .opcode, .plain⟩,
  ⟨.sub64, some rv64, .zpsfoperand, [.d, .s, .t], 0x40000033, 0xfe00707f, .opcode, .plain⟩,
  ⟨.rsub64, none, .zpsfoperand, [.pairD, .pairS, .pairT], 0x82001077, 0xfe00707f, .opcode, .plain⟩,
  ⟨.ursub64, none, .zpsfoperand, [.pairD, .pairS, .pairT], 0xa2001077, 0xfe00707f, .opcode, .plain⟩,
  ⟨.ksub64, none, .zpsfoperand, [.pairD, .pairS, .pairT], 0x92001077, 0xfe00707f, .opcode, .plain⟩,
  ⟨.uksub64, none, .zpsfoperand, [.pairD, .pairS, .pairT], 0xb2001077, 0xfe00707f, .opcode, .plain⟩,
  ⟨.pkbb32, some rv64, .zbpbo, [.d, .t, .s], 0x08004033, 0xfe00707f, .opcode, .plain⟩,
  ⟨.pkbt32, some rv64, .zpn, [.d, .s, .t], 0x1e002077, 0xfe00707f, .opcode, .plain⟩,
  ⟨.pktb32, some rv64, .zpn, [.d, .s, .t], 0x3e002077, 0xfe00707f, .opcode, .plain⟩,
  ⟨.pktt32, some rv64, .zbpbo, [.d, .t, .s], 0x48004033, 0xfe00707f, .opcode, .plain⟩,
  ⟨.sll32, some rv64, .zpn, [.d, .s, .t], 0x54002077, 0xfe00707f, .opcode, .plain⟩,
  ⟨.slli32, some rv64, .zpn, [.d, .s, .shamtw], 0x74002077, 0xfe00707f, .opcode, .plain⟩,
  ⟨.sra32, some rv64, .zpn, [.d, .s, .t], 0x50002077, 0xfe00707f, .opcode, .plain⟩,
  ⟨.sra32_u, some rv64, .zpn, [.d, .s, .t], 0x60002077, 0xfe00707f, .opcode, .plain⟩,
  ⟨.srai32, some rv64, .zpn, [.d, .s, .shamtw], 0x70002077, 0xfe00707f, .opcode, .plain⟩,
  ⟨.srai32_u, some rv64, .zpn, [.d, .s, .shamtw], 0x80002077, 0xfe00707f, .opcode, .plain⟩,
  ⟨.sraiw_u, some rv64, .zpn, [.d, .s, .shamtw], 0x34001077, 0xfe00707f, .opcode, .plain⟩,
  ⟨.srl32, some rv64, .zpn, [.d, .s, .t], 0x52002077, 0xfe00707f, .opcode, .plain⟩,
  ⟨.srl32_u, some rv64, .zpn, [.d, .s, .t], 0x62002077, 0xfe00707f, .opcode, .plain⟩,
  ⟨.srli32, some rv64, .zpn, [.d, .s, .shamtw], 0x72002077, 0xfe00707f, .opcode, .plain⟩,
  ⟨.srli32_u, some rv64, .zpn, [.d, .s, .shamtw], 0x82002077, 0xfe00707f, .opcode, .plain⟩,
  ⟨.add32, some rv64, .zpn, [.d, .s, .t], 0x40002077, 0xfe00707f, .opcode, .plain⟩,
  ⟨.radd32, some rv64, .zpn, [.d, .s, .t], 0x00002077, 0xfe00707f, .opcode, .plain⟩,
  ⟨.uradd32, some rv64, .zpn, [.d, .s, .t], 0x20002077, 0xfe00707f, .opcode, .plain⟩,
  ⟨.kadd32, some rv64, .zpn, [.d, .s, .t], 0x10002077, 0xfe00707f, .opcode, .plain⟩,
  ⟨.ukadd32, some rv64, .zpn, [.d, .s, .t], 0x30002077, 0xfe00707f, .opcode, .plain⟩,
  ⟨.sub32, some rv64, .zpn, [.d, .s, .t], 0x42002077, 0xfe00707f, .opcode, .plain⟩,
  ⟨.rsub32, some rv64, .zpn, [.d, .s, .t], 0x02002077, 0xfe00707f, .opcode, .plain⟩,
  ⟨.ursub32, some rv64, .zpn, [.d, .s, .t], 0x22002077, 0xfe00707f, .opcode, .plain⟩,
  ⟨.ksub32, some rv64, .zpn, [.d, .s, .t], 0x12002077, 0xfe00707f, .opcode, .plain⟩,
  ⟨.uksub32, some rv64, .zpn, [.d, .s, .t], 0x32002077, 0xfe00707f, .opcode, .plain⟩,
  ⟨.smds32, some rv64, .zpn, [.d, .s, .t], 0x58002077, 0xfe00707f, .opcode, .plain⟩,
  ⟨.smdrs32, some rv64, .zpn, [.d, .s, .t], 0x68002077, 0xfe00707f, .opcode, .plain⟩,
  ⟨.smxds32, some rv64, .zpn, [.d, .s, .t], 0x78002077, 0xfe00707f, .opcode, .plain⟩,
  ⟨.smax32, some rv64, .zpn, [.d, .s, .t], 0x92002077, 0xfe00707f, .opcode, .plain⟩,
  ⟨.smin32, some rv64, .zpn, [.d, .s, .t], 0x90002077, 0xfe00707f, .opcode, .plain⟩,
  ⟨.umax32, some rv64, .zpn, [.d, .s, .t], 0xa2002077, 0xfe00707f, .opcode, .plain⟩,
  ⟨.umin32, some rv64, .zpn, [.d, .s, .t], 0xa0002077, 0xfe00707f, .opcode, .plain⟩,
  ⟨.cras32, some rv64, .zpn, [.d, .s, .t], 0x44002077, 0xfe00707f, .opcode, .plain⟩,
  ⟨.rcras32, some rv64, .zpn, [.d, .s, .t], 0x04002077, 0xfe00707f, .opcode, .plain⟩,
  ⟨.urcras32, some rv64, .zpn, [.d, .s, .t], 0x24002077, 0xfe00707f, .opcode, .plain⟩,
  ⟨.kcras32, some rv64, .zpn, [.d, .s, .t], 0x14002077, 0xfe00707f, .opcode, .plain⟩,
  ⟨.ukcras32, some rv64, .zpn, [.d, .s, .t], 0x34002077, 0xfe00707f, .opcode, .plain⟩,
  ⟨.crsa32, some rv64, .zpn, [.d, .s, .t], 0x46002077, 0xfe00707f, .opcode, .plain⟩,
  ⟨.rcrsa32, some rv64, .zpn, [.d, .s, .t], 0x06002077, 0xfe00707f, .opcode, .plain⟩,
  ⟨.urcrsa32, some rv64, .zpn, [.d, .s, .t], 0x26002077, 0xfe00707f, .opcode, .plain⟩,
  ⟨.kcrsa32, some rv64, .zpn, [.d, .s, .t], 0x16002077, 0xfe00707f, .opcode, .plain⟩,
  ⟨.ukcrsa32, some rv64, .zpn, [.d, .s, .t], 0x36002077, 0xfe00707f, .opcode, .plain⟩,
  ⟨.stas32, some rv64, .zpn, [.d, .s, .t], 0xf0002077, 0xfe00707f, .opcode, .plain⟩,
  ⟨.rstas32, some rv64, .zpn, [.d, .s, .t], 0xb0002077, 0xfe00707f, .opcode, .plain⟩,
  ⟨.urstas32, some rv64, .zpn, [.d, .s, .t], 0xd0002077, 0xfe00707f, .opcode, .plain⟩,
  ⟨.kstas32, some rv64, .zpn, [.d, .s, .t], 0xc0002077, 0xfe00707f, .opcode, .plain⟩,
  ⟨.ukstas32, some rv64, .zpn, [.d, .s, .t], 0xe0002077, 0xfe00707f, .opcode, .plain⟩,
  ⟨.stsa32, some rv64, .zpn, [.d, .s, .t], 0xf2002077, 0xfe00707f, .opcode, .plain⟩,
  ⟨.rstsa32, some rv64, .zpn, [.d, .s, .t], 0xb2002077, 0xfe00707f, .opcode, .plain⟩,
  ⟨.urstsa32, some rv64, .zpn, [.d, .s, .t], 0xd2002077, 0xfe00707f, .opcode, .plain⟩,
  ⟨.kstsa32, some rv64, .zpn, [.d, .s, .t], 0xc2002077, 0xfe00707f, .opcode, .plain⟩,
  ⟨.ukstsa32, some rv64, .zpn, [.d, .s, .t], 0xe2002077, 0xfe00707f, .opcode, .plain⟩,
  ⟨.kabs32, some rv64, .zpn, [.d, .s], 0xad200077, 0xfff0707f, .opcode, .plain⟩,
  ⟨.kdmbb16, some rv64, .zpn, [.d, .s, .t], 0xda001077, 0xfe00707f, .opcode, .plain⟩,
  ⟨.kdmbt16, some rv64, .zpn, [.d, .s, .t], 0xea001077, 0xfe00707f, .opcode, .plain⟩,
  ⟨.kdmtt16, some rv64, .zpn, [.d, .s, .t], 0xfa001077, 0xfe00707f, .opcode, .plain⟩,
  ⟨.kdmabb16, some rv64, .zpn, [.d, .s, .t], 0xd8001077, 0xfe00707f, .opcode, .plain⟩,
  ⟨.kdmabt16, some rv64, .zpn, [.d, .s, .t], 0xe8001077, 0xfe00707f, .opcode, .plain⟩,
  ⟨.kdmatt16, some rv64, .zpn, [.d, .s, .t], 0xf8001077, 0xfe00707f, .opcode, .plain⟩,
  ⟨.khmbb16, some rv64, .zpn, [.d, .s, .t], 0xdc001077, 0xfe00707f, .opcode, .plain⟩,
  ⟨.khmbt16, some rv64, .zpn, [.d, .s, .t], 0xec001077, 0xfe00707f, .opcode, .plain⟩,
  ⟨.khmtt16, some rv64, .zpn, [.d, .s, .t], 0xfc001077, 0xfe00707f, .opcode, .plain⟩,
  ⟨.kmabb32, some rv64, .zpn, [.d, .s, .t], 0x5a002077, 0xfe00707f, .opcode, .plain⟩,
  ⟨.kmabt32, some rv64, .zpn, [.d, .s, .t], 0x6a002077, 0xfe00707f, .opcode, .plain⟩,
  ⟨.kmatt32, some rv64, .zpn, [.d, .s, .t], 0x7a002077, 0xfe00707f, .opcode, .plain⟩,
  ⟨.kmada32, some rv64, .zpn, [.d, .s, .t], 0x94001077, 0xfe00707f, .opcode, .insnAlias⟩,
  ⟨.kmaxda32, some rv64, .zpn, [.d, .s, .t], 0x4a002077, 0xfe00707f, .opcode, .plain⟩,
  ⟨.kmda32, some rv64, .zpn, [.d, .s, .t], 0x38002077, 0xfe00707f, .opcode, .plain⟩,
  ⟨.kmxda32, some rv64, .zpn, [.d, .s, .t], 0x3a002077, 0xfe00707f, .opcode, .plain⟩,
  ⟨.kmads32, some rv64, .zpn, [.d, .s, .t], 0x5c002077, 0xfe00707f, .opcode, .plain⟩,
  ⟨.kmadrs32, some rv64, .zpn, [.d, .s, .t], 0x6c002077, 0xfe00707f, .opcode, .plain⟩,
  ⟨.kmaxds32, some rv64, .zpn, [.d, .s, .t], 0x7c002077, 0xfe00707f, .opcode, .plain⟩,
  ⟨.kmsda32, some rv64, .zpn, [.d, .s, .t], 0x4c002077, 0xfe00707f, .opcode, .plain⟩,
  ⟨.kmsxda32, some rv64, .zpn, [.d, .s, .t], 0x4e002077, 0xfe00707f, .opcode, .plain⟩,
  ⟨.ksll32, some rv64, .zpn, [.d, .s, .t], 0x64002077, 0xfe00707f, .opcode, .plain⟩,
  ⟨.kslli32, some rv64, .zpn, [.d, .s, .shamtw], 0x84002077, 0xfe00707f, .opcode, .plain⟩,
  ⟨.kslra32, some rv64, .zpn, [.d, .s, .t], 0x56002077, 0xfe00707f, .opcode, .plain⟩,
  ⟨.kslra32_u, some rv64, .zpn, [.d, .s, .t], 0x66002077, 0xfe00707f, .opcode, .plain⟩]

def xflush : List Opcode := [
  ⟨.cflush_d_l1, none, .xflush, [.s], 0xfc000073, 0xfff07fff, .opcode, .plain⟩,
  ⟨.cdiscard_d_l1, none, .xflush, [.s], 0xfc200073, 0xfff07fff, .opcode, .plain⟩]

def xgost : List Opcode := [
  ⟨.gost32sb, some rv32, .xgost, [.d, .s, .t], 0x8400402b, 0xfe00707f, .opcode, .plain⟩,
  ⟨.gost32sbi, some rv32, .xgost, [.d, .s, .t], 0x8600402b, 0xfe00707f, .opcode, .plain⟩,
  ⟨.gost32kuld, some rv32, .xgost, [.d, .s, .t], 0xc800402b, 0xfe00707f, .opcode, .plain⟩,
  ⟨.gost32kuldh, some rv32, .xgost, [.d, .s, .t], 0xca00402b, 0xfe00707f, .opcode, .plain⟩,
  ⟨.gost32kule, some rv32, .xgost, [.d, .s, .t], 0xce00402b, 0xfe00707f, .opcode, .plain⟩,
  ⟨.gost32kuleh, some rv32, .xgost, [.d, .s, .t], 0xcc00402b, 0xfe00707f, .opcode, .plain⟩,
  ⟨.gost32mgma, some rv32, .xgost, [.d, .s, .t], 0xd000402b, 0xfe00707f, .opcode, .plain⟩,
  ⟨.gost32tau1, some rv32, .xgost, [.d, .s, .t], 0xa000402b, 0xfe00707f, .opcode, .plain⟩,
  ⟨.gost32tau2, some rv32, .xgost, [.d, .s, .t], 0xa200402b, 0xfe00707f, .opcode, .plain⟩,
  ⟨.gost32lin1, some rv32, .xgost, [.d, .s, .t], 0xa400402b, 0xfe00707f, .opcode, .plain⟩,
  ⟨.gost32lin2, some rv32, .xgost, [.d, .s, .t], 0xa600402b, 0xfe00707f, .opcode, .plain⟩,
  ⟨.gost64sb, some rv64, .xgost, [.d, .s, .t], 0x0400402b, 0xfe00707f, .opcode, .plain⟩,
  ⟨.gost64sbi, some rv64, .xgost, [.d, .s, .t], 0x0600402b, 0xfe00707f, .opcode, .plain⟩,
  ⟨.gost64kuld, some rv64, .xgost, [.d, .s, .t], 0x4800402b, 0xfe00707f, .opcode, .plain⟩,
  ⟨.gost64kule, some rv64, .xgost, [.d, .s, .t], 0x4e00402b, 0xfe00707f, .opcode, .plain⟩,
  ⟨.gost64mgma, some rv64, .xgost, [.d, .s, .t], 0x5000402b, 0xfe00707f, .opcode, .plain⟩,
  ⟨.gost64tau1, some rv64, .xgost, [.d, .s, .t], 0x2000402b, 0xfe00707f, .opcode, .plain⟩,
  ⟨.gost64tau2, some rv64, .xgost, [.d, .s, .t], 0x2200402b, 0xfe00707f, .opcode, .plain⟩,
  ⟨.gost64lin1, some rv64, .xgost, [.d, .s, .t], 0x2400402b, 0xfe00707f, .opcode, .plain⟩,
  ⟨.gost64lin2, some rv64, .xgost, [.d, .s, .t], 0x2600402b, 0xfe00707f, .opcode, .plain⟩]

def riscvOpcodes : List Opcode := bitmanip ++ pExtension ++ xflush ++ xgost

end Table

end Binutils
