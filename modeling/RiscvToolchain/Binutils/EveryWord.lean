import RiscvToolchain.Binutils.RoundTrip

/- Disassemble and assemble, for every word that an added entry fits, whether operands in
   range give it or not: a word of an odd pair, of a shift amount or a byte number that RV32
   has no bit for. The line that is printed assembles to the word again exactly when the bits
   of `Arg.clearBit` are clear in it, and it is no word of `zext.h` (`reassembles_iff`). A pair
   and a shift amount that are printed all the same are complained about; the byte number of
   `insb` is printed without its highest bit, so the line assembles to another word. -/
namespace Binutils
open Semantics

section Printed
variable {c : Target} {w : BitVec 32}

/-- Every operand that is printed is read from its own place in the line. -/
theorem mem_readAll_print {as : List Arg} {vs : List (BitVec 32 × Bool)}
    (h : readAll c as (printInsnArgs c.xlen as w) = some vs) {a : Arg} (ha : a ∈ as) :
    ∃ v ∈ vs, a.read c (a.print c.xlen w) = some v ∧ (a.field, v.1) ∈ storesAll as vs := by
  induction as generalizing vs with
  | nil => cases ha
  | cons b as ih =>
    obtain ⟨v, vs', hv, hvs, rfl⟩ := readAll_cons h
    cases ha with
    | head =>
      refine ⟨v, List.mem_cons_self, hv, List.mem_append_left _ ?_⟩
      exact List.mem_map.mpr ⟨a.field, field_mem_fields a, rfl⟩
    | tail _ ha =>
      obtain ⟨v', hv', hread, hstore⟩ := ih hvs ha
      exact ⟨v', List.mem_cons_of_mem _ hv', hread, List.mem_append_right _ hstore⟩

/-- A small number is not changed before it is compared. -/
theorem absolute_of_lt (hc : c.NormalizesConstants) {n : BitVec 64} (h : n.toNat < 64) :
    c.absolute n = n := by
  have hn : n.toInt = n.toNat := BitVec.toInt_eq_toNat_of_lt (by omega)
  cases hx : c.xlen with
  | rv64 => exact hc.wide hx n
  | rv32 =>
    rw [hc.narrow hx n (by omega) (by omega)]
    apply BitVec.eq_of_toInt_eq
    rw [toInt_signExtend_low, hn]
    simp only [Int.bmod]
    omega

theorem admits_of_read_reg {a : Arg} (ha : a.isReg = true) {r : BitVec 5} {v : BitVec 32 × Bool}
    (hread : a.read c (.reg r) = some v) (hgood : v.2 = false) : a.Admits c.xlen (.reg r) := by
  rw [read_reg ha] at hread
  obtain rfl := Option.some.inj hread
  refine ⟨ha, fun hp hx => (getLsbD_zero_iff r).mp ?_⟩
  simpa [hp, hx] using hgood

/-- What is printed for an operand is read back without a complaint, and to what its field holds,
    only where the bit is clear. -/
theorem clear_of_read (hc : c.NormalizesConstants) {a : Arg} {v : BitVec 32 × Bool}
    (hread : a.read c (a.print c.xlen w) = some v) (hgood : v.2 = false)
    (hfield : a.field.extract w = v.1 &&& a.field.mask) : a.Clear c.xlen w := by
  intro hx b hb
  rw [hx] at hread
  refine @clear_of_admits .rv32 a w ?_ rfl b hb
  cases a with
  | pairD | pairS | pairT => exact hx ▸ admits_of_read_reg rfl hread hgood
  | shamt =>
    have hlt : ((opShamt.extract w).setWidth 64).toNat < 64 := by
      rw [BitVec.toNat_setWidth_of_le (by decide)]
      exact toNat_and_lt (by decide)
    rw [Arg.print, read_imm rfl, absolute_of_lt hc hlt] at hread
    obtain rfl := Option.some.inj hread
    have hbits := of_decide_eq_false hgood
    rw [hx, BitVec.toNat_setWidth_of_le (by decide), Nat.not_le] at hbits
    exact ⟨rfl, inRange_of_toNat_lt hbits⟩
  | ib =>
    have hlt : (printImm .rv32 .ib w).toNat < 4 := toNat_and_lt (by decide)
    have hwide : ((printImm .rv32 .ib w).setWidth 64).toNat < 64 := by
      rw [BitVec.toNat_setWidth_of_le (by decide)]
      omega
    rw [Arg.print, read_imm rfl, absolute_of_lt hc hwide] at hread
    obtain rfl := Option.some.inj hread
    refine ⟨rfl, inRange_of_toNat_lt ?_⟩
    rw [hfield, BitVec.toNat_and]
    refine Nat.lt_of_le_of_lt Nat.and_le_left ?_
    rw [BitVec.setWidth_setWidth_of_le _ (by decide), BitVec.setWidth_eq]
    exact hlt
  | _ => cases hb

end Printed

/-! The entry that takes the line. -/

def Opcode.hasClearBit (e : Opcode) : Bool := e.args.any fun a => a.clearBit.isSome

/-- Entries of one name that fit one word ask for the same operands, if a bit matters. -/
def alike (g f : Opcode) : Bool :=
  apart g f || apart f g || g.conflicts f || f.conflicts g || g.args == f.args ||
    !(g.hasClearBit || f.hasClearBit)

theorem alike_table : aheadAll alike opcodeTable = true := by decide +kernel

theorem alike_comm (g f : Opcode) : alike g f = alike f g := by
  have hargs : (g.args == f.args) = (f.args == g.args) := by
    rw [Bool.eq_iff_iff, beq_iff_eq, beq_iff_eq, eq_comm]
  rw [alike, alike, hargs, Bool.or_comm (apart g f), Bool.or_assoc (_ || _) (g.conflicts f),
    Bool.or_comm (g.conflicts f), ← Bool.or_assoc, Bool.or_comm g.hasClearBit]

theorem alike_of_name {g f : Opcode} (hg : g ∈ opcodeTable) (hf : f ∈ opcodeTable)
    (hname : g.name = f.name) : alike g f = true := by
  have hpair := pairwise_of_aheadAll opcodeTable_sorted alike_table
  refine List.Pairwise.forall_of_forall_of_flip ?_ hpair ?_ hg hf hname
  · intro e he _
    simp [alike]
  · refine hpair.imp ?_
    intro f g h hname
    rw [alike_comm]
    exact h hname.symm

section Words
variable {c : Target} (hc : c.NormalizesConstants) (hs : c.supports = pXbpXflush) {w : BitVec 32}

include hs in
theorem args_eq_of_fits {f g : Opcode} (hf : f ∈ opcodeTable) (hg : g ∈ opcodeTable)
    (hname : g.name = f.name) (hfa : f.available c = true) (hga : g.available c = true)
    (hfw : f.matchWord w = true) (hgw : g.matchWord w = true) (hbit : f.hasClearBit = true) :
    g.args = f.args := by
  obtain ⟨-, -, hfbits⟩ := of_matchWord_table hf hfw
  obtain ⟨-, -, hgbits⟩ := of_matchWord_table hg hgw
  have halike := alike_of_name hg hf hname
  simpa [alike, not_apart hs hga hfa, not_apart hs hfa hga, not_conflicts hgbits hfbits,
    not_conflicts hfbits hgbits, hbit] using halike

include hc hs in
theorem FirstFit.of_accepts {f : Opcode} (h : FirstFit c w f)
    (hacc : Accepts c opcodeTable f.name (printInsnArgs c.xlen f.args w) w) :
    f.name ≠ .zext_h ∧ ∀ a ∈ f.args, a.Clear c.xlen w := by
  constructor
  · intro hname
    have hargs : (zextH c.xlen).args = [.d, .s] := by cases c.xlen <;> rfl
    rw [hname, h.eq_zextH hs hname, hargs] at hacc
    cases (riscvIp_zextH hs _ _).symm.trans hacc
  · intro a ha hx b hb
    obtain ⟨g, hg, hname, hga, hp, hgw, vs, hread, hword, hgood⟩ := hacc.entry
    have hbit : f.hasClearBit = true := List.any_eq_true.mpr ⟨a, ha, by rw [hb]; rfl⟩
    have hargs := args_eq_of_fits hs h.mem hg hname h.available hga h.fits hgw hbit
    obtain ⟨-, hwf, -⟩ := of_matchWord_table hg hgw
    rw [← hargs] at hread ha
    obtain ⟨v, hv, hav, hstore⟩ := mem_readAll_print hread ha
    have hfield := extract_encode hwf hread hstore
    rw [← hword] at hfield
    exact clear_of_read hc hav (by simpa using List.any_eq_false.mp hgood v hv) hfield hx b hb

end Words

end Binutils
