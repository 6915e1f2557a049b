import RiscvToolchain.Binutils.Immediates
import RiscvToolchain.Binutils.SharedWords

/- From operands to a word and back, for one entry. An operand that is in range for its
   place in the operand string (`Arg.Admits`) is read without a complaint, and what its
   field holds afterwards names it (`Arg.decode`), so a word determines the operands. In
   the other direction a word with the fixed bits of an entry is assembled again from the
   operands that the disassembler prints for the entry, when these are in range for it:
   on RV32 that is a matter of the clear bits of `SharedWords`. The operand 'v' is left
   out of this direction: it prints two register names without a comma. -/
namespace Binutils
open Semantics

/-- Operands that are in range. -/
def Arg.Admits (xlen : Xlen) (a : Arg) : Operand → Prop
  | .reg regno => a.isReg = true ∧ (a.isPair = true → xlen = .rv32 → regno.toNat % 2 = 0)
  | .imm n => a.isReg = false ∧ InRange xlen a n.toInt
  | .text => False

/-- The number that an operand writes. -/
def Operand.value : Operand → BitVec 32
  | .reg r => r.setWidth 32
  | .imm n => n.setWidth 32
  | .text => 0#32

/-- The field that an operand is read back from. -/
def Arg.field : Arg → Field 32
  | .d | .pairD => opRd
  | .s | .pairS | .v => opRs1
  | .t | .pairT => opRs2
  | .r => opRs3
  | .shamt => opShamt
  | .shamtw => opShamtw
  | .i3 | .ib => opImm3
  | .i4 => opImm4

def Arg.decode (w : BitVec 32) (a : Arg) : Operand :=
  if a.isReg then .reg ((a.field.extract w).setWidth 5) else .imm ((a.field.extract w).setWidth 64)

/-! Reading operands that are in range. -/

theorem improper_of_inRange {xlen : Xlen} {a : Arg} {n : BitVec 64} (hr : a.isReg = false)
    (h : InRange xlen a n.toInt) : a.improper xlen n = false := by
  have hlt := toNat_lt_of_inRange h
  by_cases hi : a.isImm = true
  · rw [← Bool.not_eq_true, improper_iff hi]
    have := bound_pos xlen a
    have := limit_le xlen hi
    have := h.2
    omega
  · cases a with
    | shamt => exact decide_eq_false (Nat.not_le.mpr hlt)
    | shamtw => exact decide_eq_false (by simp only [Arg.limit] at hlt; omega)
    | _ => first | exact absurd rfl hi | cases hr

section Read
variable {c : Target} (hc : c.NormalizesConstants)

include hc in
theorem read_of_admits {a : Arg} {o : Operand} (h : a.Admits c.xlen o) :
    a.read c o = some (o.value, false) := by
  cases o with
  | reg r =>
    have hodd : (a.isPair && c.xlen == .rv32 && r.getLsbD 0) = false := by
      rw [Bool.and_eq_false_imp, Bool.and_eq_true, beq_iff_eq]
      exact fun hp => (getLsbD_zero_iff r).mpr (h.2 hp.1 hp.2)
    rw [read_reg h.1, hodd]
    rfl
  | imm n =>
    rw [read_imm h.1, absolute_of_inRange hc h.2, improper_of_inRange h.1 h.2]
    rfl
  | text => exact h.elim

include hc in
theorem readAll_of_admits {as : List Arg} {os : List Operand}
    (h : List.Forall₂ (Arg.Admits c.xlen) as os) :
    readAll c as os = some (os.map fun o => (o.value, false)) := by
  induction h with
  | nil => rfl
  | cons ha _ ih => rw [readAll, read_of_admits hc ha, ih, List.map_cons]

end Read

/-! The operands that a word names. -/

theorem mask_of_isReg {a : Arg} (h : a.isReg = true) : a.field.mask = 0x1f#32 := by
  cases a <;> first | rfl | cases h

theorem mask_of_not_isReg {a : Arg} (xlen : Xlen) (h : a.isReg = false) :
    ∃ k ≤ 6, a.field.mask = BitVec.ofNat 32 (2 ^ k - 1) ∧ a.limit xlen ≤ 2 ^ k := by
  cases a with
  | shamt => exact ⟨6, by decide, rfl, by cases xlen <;> decide⟩
  | shamtw => exact ⟨5, by decide, rfl, by cases xlen <;> decide⟩
  | i3 | ib => exact ⟨3, by decide, rfl, by cases xlen <;> decide⟩
  | i4 => exact ⟨4, by decide, rfl, by cases xlen <;> decide⟩
  | _ => cases h

theorem regno_of_value : ∀ regno : BitVec 5, (regno.setWidth 32 &&& 0x1f#32).setWidth 5 = regno := by
  decide

theorem decode_of_admits {xlen : Xlen} {a : Arg} {o : Operand} {w : BitVec 32} (h : a.Admits xlen o)
    (hw : a.field.extract w = o.value &&& a.field.mask) : a.decode w = o := by
  cases o with
  | reg regno =>
    rw [Arg.decode, if_pos h.1, hw, mask_of_isReg h.1, Operand.value, regno_of_value]
  | imm n =>
    obtain ⟨k, hk, hmask, hlim⟩ := mask_of_not_isReg xlen h.1
    have hlt := toNat_lt_of_inRange h.2
    rw [Arg.decode, if_neg (by simp [h.1]), hw, hmask, Operand.value, low_bits_eq hk (by omega)]
  | text => exact h.elim

theorem field_mem_fields (a : Arg) : a.field ∈ a.fields := by
  cases a <;> exact List.mem_cons_self

/-- A word whose fields hold the operands names them. -/
theorem map_decode {xlen : Xlen} {as : List Arg} {os : List Operand} {w : BitVec 32}
    (h : List.Forall₂ (Arg.Admits xlen) as os)
    (hw : ∀ p ∈ storesAll as (os.map fun o => (o.value, false)), p.1.extract w = p.2 &&& p.1.mask) :
    as.map (Arg.decode w) = os := by
  induction h with
  | nil => rfl
  | @cons a o as os ha _ ih =>
    rw [List.map_cons, storesAll] at hw
    have hfield := hw (a.field, o.value)
      (List.mem_append_left _ (List.mem_map.mpr ⟨a.field, field_mem_fields a, rfl⟩))
    rw [List.map_cons, decode_of_admits ha hfield, ih fun p hp => hw p (List.mem_append_right _ hp)]

/-- The word that an entry assembles to from operands in range. -/
def Opcode.word (e : Opcode) (os : List Operand) : BitVec 32 :=
  e.encode (os.map fun o => (o.value, false))

theorem decode_word {c : Target} (hc : c.NormalizesConstants) {e : Opcode} (hwf : e.WellFormed)
    {os : List Operand} (h : List.Forall₂ (Arg.Admits c.xlen) e.args os) :
    e.args.map (Arg.decode (e.word os)) = os :=
  map_decode h fun _ hp => extract_encode hwf (readAll_of_admits hc h) hp

/-! Assembling what is printed. -/

theorem and_eq_of_clear {n b : Nat} {x m k : BitVec n} (hb : x.getLsbD b = false)
    (h : ∀ i < n, i ≠ b → m.getLsbD i = k.getLsbD i) : x &&& m = x &&& k := by
  apply BitVec.eq_of_getLsbD_eq
  intro i hi
  rw [BitVec.getLsbD_and, BitVec.getLsbD_and]
  by_cases hib : i = b
  · rw [hib, hb, Bool.false_and, Bool.false_and]
  · rw [h i hi hib]

/-- On RV32, the bit of the operand is clear. -/
def Arg.Clear (xlen : Xlen) (w : BitVec 32) (a : Arg) : Prop :=
  xlen = .rv32 → ∀ b, a.clearBit = some b → w.getLsbD b = false

section Print
variable {xlen : Xlen} {a : Arg} {w : BitVec 32}

theorem print_eq_decode (hv : a ≠ .v) (h : a.Clear xlen w) : a.print xlen w = a.decode w := by
  cases a with
  | ib =>
    cases xlen with
    | rv64 => rfl
    | rv32 =>
      have hb : (w >>> 20).getLsbD 2 = false := by
        rw [BitVec.getLsbD_ushiftRight]
        exact h rfl 22 rfl
      have hmask : (w >>> 20) &&& 3#32 = (w >>> 20) &&& 7#32 := and_eq_of_clear hb (by decide)
      exact congrArg (fun x : BitVec 32 => Operand.imm (x.setWidth 64)) hmask
  | v => exact absurd rfl hv
  | _ => rfl

theorem toNat_and_lt {x m : BitVec 32} {k : Nat} (h : m.toNat < k) : (x &&& m).toNat < k := by
  rw [BitVec.toNat_and]
  exact Nat.lt_of_le_of_lt Nat.and_le_right h

/-- The number that a field holds is documented, where the clear bit matters by the bit. -/
theorem toNat_extract_lt (hr : a.isReg = false) (h : a.Clear xlen w) :
    (a.field.extract w).toNat < a.limit xlen := by
  cases a with
  | shamt =>
    cases xlen with
    | rv64 => exact toNat_and_lt (by decide)
    | rv32 =>
      have hb : (w >>> 20).getLsbD 5 = false := by
        rw [BitVec.getLsbD_ushiftRight]
        exact h rfl 25 rfl
      have hmask : (w >>> 20) &&& 0x3f#32 = (w >>> 20) &&& 0x1f#32 := and_eq_of_clear hb (by decide)
      show ((w >>> 20) &&& 0x3f#32).toNat < 32
      rw [hmask]
      exact toNat_and_lt (by decide)
  | ib =>
    cases xlen with
    | rv64 => exact toNat_and_lt (by decide)
    | rv32 =>
      have hb : (w >>> 20).getLsbD 2 = false := by
        rw [BitVec.getLsbD_ushiftRight]
        exact h rfl 22 rfl
      have hmask : (w >>> 20) &&& 7#32 = (w >>> 20) &&& 3#32 := and_eq_of_clear hb (by decide)
      show ((w >>> 20) &&& 7#32).toNat < 4
      rw [hmask]
      exact toNat_and_lt (by decide)
  | shamtw | i3 | i4 => exact toNat_and_lt (by cases xlen <;> decide)
  | _ => cases hr

theorem inRange_of_toNat_lt {x : BitVec 32} (h : x.toNat < a.limit xlen) :
    InRange xlen a (x.setWidth 64).toInt := by
  have hx : (x.setWidth 64).toNat = x.toNat := BitVec.toNat_setWidth_of_le (by decide)
  have hlt := x.isLt
  rw [InRange, BitVec.toInt_eq_toNat_cond, hx, if_pos (by omega)]
  omega

theorem decode_admits (h : a.Clear xlen w) : a.Admits xlen (a.decode w) := by
  cases hr : a.isReg with
  | true =>
    rw [Arg.decode, if_pos hr]
    refine ⟨hr, fun hp hx => ?_⟩
    obtain ⟨b, hb, heven⟩ := even_iff_clear hp (field_mem_fields a) w
    rw [BitVec.toNat_setWidth]
    have := heven.mpr (h hx b hb)
    omega
  | false =>
    rw [Arg.decode, if_neg (by rw [hr]; decide)]
    exact ⟨hr, inRange_of_toNat_lt (toNat_extract_lt hr h)⟩

theorem getLsbD_of_toNat_lt {x : BitVec 32} {k : Nat} (h : x.toNat < 2 ^ k) : x.getLsbD k = false := by
  rw [← BitVec.testBit_toNat]
  exact Nat.testBit_lt_two_pow h

theorem even_of_admits (hp : a.isPair = true) (h : a.Admits .rv32 (a.decode w)) {b : Nat}
    (hb : a.clearBit = some b) : w.getLsbD b = false := by
  obtain ⟨b', hb', heven⟩ := even_iff_clear hp (field_mem_fields a) w
  obtain rfl := Option.some.inj (hb.symm.trans hb')
  rw [Arg.decode, if_pos (isReg_of_isPair hp)] at h
  have hmod := h.2 hp rfl
  rw [BitVec.toNat_setWidth] at hmod
  exact heven.mp (by omega)

theorem bit_of_admits (hr : a.isReg = false) (h : a.Admits .rv32 (a.decode w)) {k : Nat}
    (hk : a.limit .rv32 = 2 ^ k) (hm : a.field.mask.getLsbD k = true) :
    w.getLsbD (a.field.shift + k) = false := by
  rw [Arg.decode, if_neg (by rw [hr]; decide)] at h
  have hlt := toNat_lt_of_inRange h.2
  rw [BitVec.toNat_setWidth_of_le (by decide), hk] at hlt
  have hbit := getLsbD_of_toNat_lt hlt
  rw [Field.getLsbD_extract, hm, Bool.and_true] at hbit
  exact hbit

/-- Conversely, a field that holds an operand in range has the bit clear. -/
theorem clear_of_admits (h : a.Admits xlen (a.decode w)) : a.Clear xlen w := by
  intro hx b hb
  subst hx
  cases a with
  | pairD | pairS | pairT => exact even_of_admits rfl h hb
  | shamt => exact Option.some.inj hb ▸ bit_of_admits rfl h (k := 5) rfl rfl
  | ib => exact Option.some.inj hb ▸ bit_of_admits rfl h (k := 2) rfl rfl
  | _ => cases hb

theorem value_decode (a : Arg) (w : BitVec 32) : (a.decode w).value = a.field.extract w := by
  cases hr : a.isReg with
  | true =>
    rw [Arg.decode, if_pos hr, Operand.value]
    apply BitVec.eq_of_toNat_eq
    have hlt : (a.field.extract w).toNat < 2 ^ 5 := by
      rw [Field.extract, mask_of_isReg hr]
      exact toNat_and_lt (by decide)
    rw [BitVec.toNat_setWidth, BitVec.toNat_setWidth, Nat.mod_eq_of_lt hlt]
    omega
  | false =>
    rw [Arg.decode, if_neg (by rw [hr]; decide), Operand.value]
    simp

end Print

/-- Written with what the fields of `w` hold, the operands copy these fields. -/
theorem storesAll_extract (w : BitVec 32) {as : List Arg} (hv : .v ∉ as) :
    storesAll as (as.map fun a => (a.field.extract w, false)) =
      (as.flatMap Arg.fields).map fun f => (f, f.extract w) := by
  induction as with
  | nil => rfl
  | cons a as ih =>
    rw [List.mem_cons, not_or] at hv
    have hfields : a.fields = [a.field] := by
      cases a with
      | v => exact absurd rfl hv.1
      | _ => rfl
    rw [List.map_cons, storesAll, ih hv.2, List.flatMap_cons, List.map_append, Arg.stores, hfields]
    rfl

/-- The entry assembles the word again from what is printed for it. -/
theorem reassemble {xlen : Xlen} {e : Opcode} (hwf : e.WellFormed) {w : BitVec 32}
    (hw : w &&& e.mask = e.matchBits) (hv : .v ∉ e.args) (hclear : ∀ a ∈ e.args, a.Clear xlen w) :
    List.Forall₂ (Arg.Admits xlen) e.args (printInsnArgs xlen e.args w) ∧
      e.word (printInsnArgs xlen e.args w) = w := by
  have hprint : printInsnArgs xlen e.args w = e.args.map (Arg.decode w) := by
    apply List.map_congr_left
    intro a ha
    exact print_eq_decode (fun h => hv (h ▸ ha)) (hclear a ha)
  rw [hprint]
  constructor
  · rw [List.forall₂_map_right_iff, List.forall₂_same]
    exact fun a ha => decode_admits (hclear a ha)
  · have hvalues : (e.args.map (Arg.decode w)).map (fun o => (o.value, false)) =
        e.args.map fun a => (a.field.extract w, false) := by
      simp [value_decode, Function.comp_def]
    rw [Opcode.word, hvalues, Opcode.encode, storesAll_extract w hv]
    apply insertAll_extract _ hwf.total
    rw [hwf.inMask, hw]

end Binutils
