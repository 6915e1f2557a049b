import RiscvToolchain.Binutils.RiscvIp

/- Words that two entries of the table share. An entry is compared with those that have
   an operand whose range depends on xlen: a paired register, a shift amount, the byte
   number of `insb`. In range on RV32, such an operand leaves one bit of the word clear
   (`Arg.clearBit`), and the table is searched for entries that could produce the word
   with the bit set (`bit_clear`): there is one, `smbb32`. -/
namespace Binutils
open Semantics

/-- No word has the fixed bits of both entries, in the operations on numbers that the
    kernel computes by itself: the whole table is searched with it. -/
def Opcode.conflicts (e g : Opcode) : Bool :=
  !Nat.beq (Nat.land (Nat.xor e.matchBits.toNat g.matchBits.toNat)
    (Nat.land e.mask.toNat g.mask.toNat)) 0

theorem not_conflicts {e g : Opcode} {w : BitVec 32} (he : w &&& e.mask = e.matchBits)
    (hg : w &&& g.mask = g.matchBits) : e.conflicts g = false := by
  have h : (e.matchBits ^^^ g.matchBits) &&& (e.mask &&& g.mask) = 0#32 := by
    calc (e.matchBits ^^^ g.matchBits) &&& (e.mask &&& g.mask)
        = (w &&& e.mask &&& (e.mask &&& g.mask)) ^^^ (w &&& g.mask &&& (e.mask &&& g.mask)) := by
          rw [he, hg, xor_and_distrib]
      _ = (w &&& (e.mask &&& g.mask)) ^^^ (w &&& (e.mask &&& g.mask)) := by
          congr 1
          · rw [BitVec.and_assoc, ← BitVec.and_assoc e.mask, BitVec.and_self]
          · rw [BitVec.and_assoc, BitVec.and_comm e.mask, ← BitVec.and_assoc g.mask, BitVec.and_self]
      _ = 0#32 := BitVec.xor_self
  have hn := congrArg BitVec.toNat h
  rw [BitVec.toNat_and, BitVec.toNat_and, BitVec.toNat_xor] at hn
  rw [Opcode.conflicts, Bool.not_eq_false', Nat.beq_eq]
  exact hn

/-- The bit that an operand in range leaves clear on RV32: the parity of a pair, and the
    highest bit of a number that is smaller there than on RV64. -/
def Arg.clearBit : Arg → Option Nat
  | .pairD => some 7
  | .pairS => some 15
  | .pairT => some 20
  | .shamt => some 25
  | .ib => some 22
  | _ => none

theorem isReg_of_isPair {a : Arg} (h : a.isPair = true) : a.isReg = true := by
  cases a <;> first | rfl | cases h

theorem mask_of_mem_fields {a : Arg} {f : Field 32} (hf : f ∈ a.fields) : f.mask.getLsbD 0 = true := by
  cases a with
  | v =>
    simp only [Arg.fields, List.mem_cons, List.not_mem_nil, or_false] at hf
    obtain rfl | rfl := hf <;> rfl
  | _ =>
    obtain rfl := List.mem_singleton.mp hf
    rfl

/-- The bit that decides the parity of a paired register. -/
theorem even_iff_clear {a : Arg} (hp : a.isPair = true) {f : Field 32} (hf : f ∈ a.fields)
    (w : BitVec 32) :
    ∃ b, a.clearBit = some b ∧ ((f.extract w).toNat % 2 = 0 ↔ w.getLsbD b = false) := by
  refine ⟨f.shift, ?_, ?_⟩
  · cases a with
    | pairD | pairS | pairT =>
      obtain rfl := List.mem_singleton.mp hf
      rfl
    | _ => cases hp
  · rw [← getLsbD_zero_iff, Field.getLsbD_extract, mask_of_mem_fields hf, Bool.and_true]
    rfl

/-- On RV32, why an operand of `g` is in range in a word of `e`: the bit is one of an
    operand of `e` with the same range, or a fixed bit. -/
def bitKept (e g : Opcode) (a : Arg) : Bool :=
  match a.clearBit with
  | none => true
  | some b => e.args.contains a || (e.mask.getLsbD b && !e.matchBits.getLsbD b) ||
      -- the one entry that lacks the mark of an entry with its encoding
      (e.name == .smbb32 && e.insnClass == .zpn && e.args == [.d, .s, .t] &&
        g.name == .mulsr64 && a == .pairD)

def bitsKept (e g : Opcode) : Bool :=
  e.conflicts g || e.xlenRequirement == some .rv64 || e.pinfo == .insnMacro ||
    g.args.all (bitKept e g)

theorem bitsKept_table : (riscvOpcodes.filter fun g => g.args.any fun a => a.clearBit.isSome).all
    (fun g => riscvOpcodes.all fun e => bitsKept e g) = true := by
  decide +kernel

theorem bitsKept_of_mem {e g : Opcode} (he : e ∈ riscvOpcodes) (hg : g ∈ riscvOpcodes) {a : Arg}
    {b : Nat} (ha : a ∈ g.args) (hb : a.clearBit = some b) : bitsKept e g = true := by
  have hmem : g ∈ riscvOpcodes.filter fun g => g.args.any fun a => a.clearBit.isSome :=
    List.mem_filter.mpr ⟨hg, List.any_eq_true.mpr ⟨a, ha, by rw [hb]; rfl⟩⟩
  exact List.all_eq_true.mp (List.all_eq_true.mp bitsKept_table g hmem) e he

theorem bit_clear {e g : Opcode} (he : e ∈ riscvOpcodes) (hg : g ∈ riscvOpcodes)
    (hp : e.pinfo ≠ .insnMacro) (hx : e.xlenRequirement ≠ some .rv64) {w : BitVec 32}
    (hwe : w &&& e.mask = e.matchBits) (hwg : w &&& g.mask = g.matchBits) {a : Arg} {b : Nat}
    (ha : a ∈ g.args) (hb : a.clearBit = some b) :
    w.getLsbD b = false ∨ a ∈ e.args ∨ (e.name = .smbb32 ∧ e.insnClass = .zpn ∧
      e.args = [.d, .s, .t] ∧ g.name = .mulsr64 ∧ a = .pairD) := by
  have hkept := bitsKept_of_mem he hg ha hb
  simp only [bitsKept, not_conflicts hwe hwg, Bool.false_or, Bool.or_eq_true, beq_iff_eq, hx, hp,
    false_or, List.all_eq_true] at hkept
  have hbit := hkept a ha
  simp only [bitKept, hb, Bool.or_eq_true, Bool.and_eq_true, List.contains_iff_mem, Bool.not_eq_true',
    beq_iff_eq] at hbit
  obtain (hmem | ⟨hm, hz⟩) | ⟨⟨⟨⟨h₁, h₂⟩, h₃⟩, h₄⟩, h₅⟩ := hbit
  · exact .inr (.inl hmem)
  · left
    have hbit := congrArg (fun x : BitVec 32 => x.getLsbD b) hwe
    simpa [hm, hz] using hbit
  · exact .inr (.inr ⟨h₁, h₂, h₃, h₄, h₅⟩)

end Binutils
