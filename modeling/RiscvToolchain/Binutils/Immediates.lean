import RiscvToolchain.Binutils.RiscvIp

/- The immediates 'i3', 'i4' and 'ib' of the P extension: which numbers `riscv_ip` takes
   for them and what the disassembler prints for the word. The documented numbers are
   those below 8, below 16 and below xlen / 8; the case 'i' of `riscv_ip` compares with
   1 << ((1 << k) - 1) and 1 << (xlen / 8) instead, only from above, and then writes the
   low bits. So a number that is too large, but below the bound of the code, and every
   negative one, is taken and cut off.

   On RV32 the number compared is not always the one written: `normalize_constant_expr`,
   which `check_absolute_expr` calls, reads a number of 32 bits as a signed one. It is
   not part of the patches; what it does is `Target.NormalizesConstants`. -/
namespace Binutils
open Semantics

def Arg.isImm : Arg → Bool
  | .i3 | .i4 | .ib => true
  | _ => false

/-- The number of documented values of an immediate. -/
def Arg.limit (xlen : Xlen) : Arg → Nat
  | .shamt => xlen.bits
  | .shamtw => 32
  | .i3 => 8
  | .ib => xlen.bits / 8
  | _ => 16

/-- The bound of the case 'i'. -/
def Arg.bound (xlen : Xlen) : Arg → Int
  | .i3 => 128
  | .ib => match xlen with
    | .rv32 => 16
    | .rv64 => 256
  | _ => 32768

def InRange (xlen : Xlen) (a : Arg) (n : Int) : Prop := 0 ≤ n ∧ n < a.limit xlen

/-- `normalize_constant_expr`: on RV32, a number of 32 bits, or the negation of one, is
    sign-extended from its low 32 bits; every other number is left as it is. -/
structure Target.NormalizesConstants (c : Target) : Prop where
  wide : c.xlen = .rv64 → ∀ n, c.absolute n = n
  narrow : c.xlen = .rv32 → ∀ n, -2 ^ 32 ≤ n.toInt → n.toInt < 2 ^ 32 →
    c.absolute n = (n.setWidth 32).signExtend 64
  beyond : c.xlen = .rv32 → ∀ n, n.toInt < -2 ^ 32 ∨ 2 ^ 32 ≤ n.toInt → c.absolute n = n

/-- The line is accepted exactly when the number is documented, and an accepted number is
    the one that the word disassembles to. -/
def RangeChecked (c : Target) (e : Opcode) (a : Arg) (rd rs : BitVec 5) (n : BitVec 64) : Prop :=
  ((∃ w, Accepts c riscvOpcodes e.name [.reg rd, .reg rs, .imm n] w) ↔ InRange c.xlen a n.toInt) ∧
    ∀ w, Accepts c riscvOpcodes e.name [.reg rd, .reg rs, .imm n] w → a.print c.xlen w = .imm n

/-- The numbers that the code turns down. -/
def TurnedDown (xlen : Xlen) (a : Arg) (n : Int) : Prop :=
  match xlen with
  | .rv64 => a.bound .rv64 ≤ n
  | .rv32 => (a.bound .rv32 ≤ n ∧ n < 2 ^ 31) ∨ 2 ^ 32 ≤ n ∨
      (a.bound .rv32 - 2 ^ 32 ≤ n ∧ n < -2 ^ 31)

/-! The number that is compared. -/

theorem toInt_signExtend_low (n : BitVec 64) :
    ((n.setWidth 32).signExtend 64).toInt = n.toInt.bmod (2 ^ 32) := by
  rw [BitVec.toInt_signExtend_of_le (by decide), BitVec.toInt_setWidth, BitVec.toInt_eq_toNat_bmod]
  rw [Int.bmod_bmod_of_dvd (by decide)]

section Compared
variable {c : Target} {a : Arg}

theorem bound_pos (xlen : Xlen) (a : Arg) : 16 ≤ a.bound xlen ∧ a.bound xlen ≤ 2 ^ 15 := by
  cases a <;> cases xlen <;> decide

theorem bound_le_absolute_iff (hc : c.NormalizesConstants) (n : BitVec 64) :
    a.bound c.xlen ≤ (c.absolute n).toInt ↔ TurnedDown c.xlen a n.toInt := by
  have hb := bound_pos c.xlen a
  cases hx : c.xlen with
  | rv64 => rw [hc.wide hx]; rfl
  | rv32 =>
    rw [hx] at hb
    by_cases hn : -2 ^ 32 ≤ n.toInt ∧ n.toInt < 2 ^ 32
    · rw [hc.narrow hx n hn.1 hn.2, toInt_signExtend_low]
      simp only [TurnedDown, Int.bmod]
      omega
    · rw [hc.beyond hx n (by omega)]
      simp only [TurnedDown]
      omega

theorem improper_iff {xlen : Xlen} (hi : a.isImm = true) (x : BitVec 64) :
    a.improper xlen x = true ↔ a.bound xlen ≤ x.toInt := by
  cases a with
  | i3 => exact decide_eq_true_iff
  | i4 => exact decide_eq_true_iff
  | ib => cases xlen <;> exact decide_eq_true_iff
  | _ => cases hi

end Compared

/-! The entries. -/

/-- What the table says of the entries with an immediate: its place, and that no other
    entry has the name. -/
theorem imm_entry {e : Opcode} {a : Arg} (he : e ∈ riscvOpcodes) (ha : a ∈ e.args)
    (hi : a.isImm = true) :
    e.args = [.d, .s, a] ∧ e.xlenRequirement = none ∧ e.matchFunc = .opcode ∧ e.pinfo = .plain ∧
      candidates riscvOpcodes e.name = [e] := by
  have h : riscvOpcodes.all (fun e => e.args.all fun a => decide (a.isImm = true →
      e.args = [.d, .s, a] ∧ e.xlenRequirement = none ∧ e.matchFunc = .opcode ∧
        e.pinfo = .plain ∧ candidates riscvOpcodes e.name = [e])) = true := by
    decide +kernel
  exact of_decide_eq_true (List.all_eq_true.mp (List.all_eq_true.mp h e he) a ha) hi

section Lines
variable {c : Target} {e : Opcode} {a : Arg} (he : e ∈ riscvOpcodes) (ha : a ∈ e.args)
  (hi : a.isImm = true) (hs : c.supports e.insnClass = true) (rd rs : BitVec 5) (n : BitVec 64)

theorem readAll_imm (c : Target) (hi : a.isImm = true) :
    readAll c [.d, .s, a] [.reg rd, .reg rs, .imm n] =
      some [(rd.setWidth 32, false), (rs.setWidth 32, false),
        ((c.absolute n).setWidth 32, a.improper c.xlen (c.absolute n))] := by
  cases a with
  | i3 | i4 | ib => rfl
  | _ => cases hi

include he ha hi hs in
/-- The line assembles whatever the number is: a number that is turned down is only
    complained about. -/
theorem riscvIp_imm : ∃ w, riscvIp c riscvOpcodes e.name [.reg rd, .reg rs, .imm n] =
      (some (.word w), a.improper c.xlen (c.absolute n)) ∧
    ∀ f ∈ a.fields, f.extract w = (c.absolute n).setWidth 32 &&& f.mask := by
  obtain ⟨hargs, hx, hm, hp, hcand⟩ := imm_entry he ha hi
  have hpi : e.pinfo ≠ .insnMacro := by rw [hp]; decide
  have hwf := wellFormed_of_mem he hpi
  have hr := readAll_imm (a := a) rd rs n c hi
  rw [← hargs] at hr
  have hav : e.available c = true := by simp [Opcode.available, hx, hs]
  have hip := riscvIp_of_alone hcand hav hpi hr (by
    rw [Opcode.matchWord, hm]
    exact (matchOpcode_iff hwf.inMask).mpr (encode_and_mask hwf hr))
  simp only [List.any_cons, List.any_nil, Bool.or_false, Bool.false_or] at hip
  refine ⟨_, hip, ?_⟩
  intro f hf
  apply extract_encode hwf hr
  rw [hargs]
  simp only [storesAll, List.append_nil, List.mem_append]
  exact .inr (.inr (List.mem_map.mpr ⟨f, hf, rfl⟩))

include he ha hi hs in
theorem accepts_imm_iff : ∃ w₀,
    (∀ w, Accepts c riscvOpcodes e.name [.reg rd, .reg rs, .imm n] w ↔
      w = w₀ ∧ ¬ a.bound c.xlen ≤ (c.absolute n).toInt) ∧
    ∀ f ∈ a.fields, f.extract w₀ = (c.absolute n).setWidth 32 &&& f.mask := by
  obtain ⟨w₀, hip, hf⟩ := riscvIp_imm he ha hi hs rd rs n
  refine ⟨w₀, fun w => ?_, hf⟩
  rw [Accepts, hip, ← improper_iff hi, Bool.not_eq_true, Prod.mk.injEq, Option.some.injEq,
    Assembled.word.injEq, eq_comm (a := w₀)]

end Lines

/-! What is printed. -/

/-- The disassembler's mask only keeps bits that were written. -/
theorem printImm_eq {xlen : Xlen} {a : Arg} (hi : a.isImm = true) (w : BitVec 32) :
    ∃ f ∈ a.fields, f.mask &&& BitVec.ofNat 32 (a.limit xlen - 1) = BitVec.ofNat 32 (a.limit xlen - 1) ∧
      a.print xlen w =
        .imm ((f.extract w &&& BitVec.ofNat 32 (a.limit xlen - 1)).setWidth 64) := by
  have hand (m k : BitVec 32) (h : m &&& k = k) : Operand.imm (((w >>> 20) &&& k).setWidth 64) =
      .imm (((w >>> 20) &&& m &&& k).setWidth 64) := by
    rw [BitVec.and_assoc, h]
  cases a with
  | i3 =>
    have hm : opImm3.mask &&& 7#32 = 7#32 := by decide
    exact ⟨opImm3, by simp [Arg.fields], hm, hand _ _ hm⟩
  | i4 =>
    have hm : opImm4.mask &&& 15#32 = 15#32 := by decide
    exact ⟨opImm4, by simp [Arg.fields], hm, hand _ _ hm⟩
  | ib =>
    have hm : opImm3.mask &&& BitVec.ofNat 32 (xlen.bits / 8 - 1) =
        BitVec.ofNat 32 (xlen.bits / 8 - 1) := by cases xlen <;> decide
    exact ⟨opImm3, by simp [Arg.fields], hm, hand _ _ hm⟩
  | _ => cases hi

theorem toNat_lt_of_inRange {xlen : Xlen} {a : Arg} {n : BitVec 64} (h : InRange xlen a n.toInt) :
    n.toNat < a.limit xlen := by
  have h' := h.1
  have h'' := h.2
  rw [BitVec.toInt_eq_toNat_cond] at h' h''
  split at h' <;> omega

theorem limit_le {a : Arg} (xlen : Xlen) (hi : a.isImm = true) : a.limit xlen ≤ 16 := by
  cases a <;> cases xlen <;> first | decide | cases hi

theorem limit_eq (xlen : Xlen) (a : Arg) : ∃ k ≤ 6, a.limit xlen = 2 ^ k := by
  refine ⟨(a.limit xlen).log2, ?_, ?_⟩ <;> cases a <;> cases xlen <;> decide

theorem low_bits_eq {n : BitVec 64} {k : Nat} (hk : k ≤ 6) (h : n.toNat < 2 ^ k) :
    (n.setWidth 32 &&& BitVec.ofNat 32 (2 ^ k - 1)).setWidth 64 = n := by
  have hlt : 2 ^ k ≤ 2 ^ 6 := Nat.pow_le_pow_right (by decide) hk
  apply BitVec.eq_of_toNat_eq
  rw [BitVec.toNat_setWidth, BitVec.toNat_and, BitVec.toNat_setWidth, BitVec.toNat_ofNat,
    Nat.mod_eq_of_lt (by omega : n.toNat < 2 ^ 32), Nat.mod_eq_of_lt (by omega : 2 ^ k - 1 < 2 ^ 32),
    Nat.and_two_pow_sub_one_eq_mod, Nat.mod_eq_of_lt h]
  omega

theorem print_imm {xlen : Xlen} {a : Arg} (hi : a.isImm = true) {w : BitVec 32} {n : BitVec 64}
    (hf : ∀ f ∈ a.fields, f.extract w = n.setWidth 32 &&& f.mask) (hn : InRange xlen a n.toInt) :
    a.print xlen w = .imm n := by
  obtain ⟨f, hmem, hmask, hp⟩ := printImm_eq hi w
  obtain ⟨k, hk, hl⟩ := limit_eq xlen a
  have hlt := toNat_lt_of_inRange hn
  rw [hl] at hlt
  rw [hp, hf f hmem, BitVec.and_assoc, hmask, hl, low_bits_eq hk hlt]

/-! The range. -/

theorem absolute_of_inRange {c : Target} {a : Arg} (hc : c.NormalizesConstants) {n : BitVec 64}
    (h : InRange c.xlen a n.toInt) : c.absolute n = n := by
  have hlt : n.toInt < 64 := by
    obtain ⟨k, hk, hl⟩ := limit_eq c.xlen a
    have := Nat.pow_le_pow_right (n := 2) (by decide) hk
    have := h.2
    omega
  have h0 := h.1
  cases hx : c.xlen with
  | rv64 => exact hc.wide hx n
  | rv32 =>
    rw [hc.narrow hx n (by omega) (by omega)]
    apply BitVec.eq_of_toInt_eq
    rw [toInt_signExtend_low, Int.bmod]
    omega

theorem rangeChecked_iff {c : Target} (hc : c.NormalizesConstants) {e : Opcode} (he : e ∈ riscvOpcodes)
    (hs : c.supports e.insnClass = true) {a : Arg} (ha : a ∈ e.args) (hi : a.isImm = true)
    (rd rs : BitVec 5) (n : BitVec 64) :
    RangeChecked c e a rd rs n ↔ InRange c.xlen a n.toInt ∨ TurnedDown c.xlen a n.toInt := by
  obtain ⟨w₀, hacc, hf⟩ := accepts_imm_iff he ha hi hs rd rs n
  rw [← bound_le_absolute_iff hc]
  unfold RangeChecked
  simp only [hacc, exists_eq_left]
  constructor
  · -- where the bound is not reached the number is taken, and so is in range
    intro h
    by_cases hb : a.bound c.xlen ≤ (c.absolute n).toInt
    · exact .inr hb
    · exact .inl (h.1.mp hb)
  · intro h
    by_cases hn : InRange c.xlen a n.toInt
    · -- a documented number is compared as it is, and is below every bound
      have habs := absolute_of_inRange hc hn
      rw [habs] at hf ⊢
      have hb : ¬ a.bound c.xlen ≤ n.toInt := by
        have := bound_pos c.xlen a
        have := limit_le c.xlen hi
        have := hn.2
        omega
      refine ⟨iff_of_true hb hn, ?_⟩
      intro w hw
      rw [hw.1]
      exact print_imm hi hf hn
    · have hb := h.resolve_left hn
      exact ⟨iff_of_false (not_not_intro hb) hn, fun w hw => absurd hb hw.2⟩

theorem rv32All_normalizes : rv32All.NormalizesConstants where
  wide h := by cases h
  narrow _ n h₁ h₂ := if_pos ⟨h₁, h₂⟩
  beyond _ n h := if_neg (by omega)

theorem rangeChecked_insb_three : InRange .rv32 .ib (3#64).toInt ∧ RangeChecked rv32All
    ⟨.insb, none, .zpn, [.d, .s, .ib], 0xac000077, 0xff80707f, .opcode, .plain⟩ .ib 10 11 3#64 := by
  have hin : InRange .rv32 .ib (3#64).toInt := And.intro (by decide) (by decide)
  exact ⟨hin, (rangeChecked_iff rv32All_normalizes (by decide +kernel) rfl (by decide) rfl 10 11 3#64).mpr
    (.inl hin)⟩

/-- `srai8 a0, a1, 8` assembles to the word of `srai8 a0, a1, 0`. -/
theorem not_rangeChecked : ¬ RangeChecked rv32All
    ⟨.srai8, none, .zpn, [.d, .s, .i3], 0x78000077, 0xff80707f, .opcode, .plain⟩ .i3 10 11 8#64 := by
  intro h
  have hacc : Accepts rv32All riscvOpcodes .srai8 [.reg 10, .reg 11, .imm 8#64] 0x78058577 := by
    decide +kernel
  exact absurd (h.1.mp ⟨_, hacc⟩).2 (by decide)

end Binutils
