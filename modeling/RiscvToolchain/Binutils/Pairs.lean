import RiscvToolchain.Binutils.SharedWords

/- Even-odd register pairs on RV32. An operand marked '+' names the even register of a
   pair, and `riscv_ip` complains about an odd one; but the mark belongs to the entry that
   the line names, while the pair belongs to the word. The table is searched for entries
   that can produce the word of a paired one: every such entry carries the same marks,
   with the exception of `smbb32`, which has the encoding of `mulsr64` and no mark. -/
namespace Binutils
open Semantics

/-- A line keeps to even registers when the word it assembles to has one in every marked
    field of every paired entry that matches the word. -/
def PairsEven (c : Target) (name : Mnemonic) (os : List Operand) : Prop :=
  ∀ w, Accepts c riscvOpcodes name os w → ∀ g ∈ riscvOpcodes, g.insnClass = .zpsfoperand →
    g.xlenRequirement ≠ some .rv64 → g.matchWord w = true →
      ∀ a ∈ g.args, a.isPair = true → ∀ f ∈ a.fields, (f.extract w).toNat % 2 = 0

/-! Registers that were read. -/

theorem reg_of_read {c : Target} {a : Arg} {o : Operand} {v : BitVec 32 × Bool} (ha : a.isReg = true)
    (h : a.read c o = some v) : ∃ r, o = .reg r ∧ v.1 = r.setWidth 32 ∧
      v.2 = (a.isPair && c.xlen == .rv32 && r.getLsbD 0) := by
  cases o with
  | reg r =>
    rw [read_reg ha] at h
    obtain rfl := Option.some.inj h
    exact ⟨r, rfl, rfl, rfl⟩
  | imm n => simp [Arg.read, ha] at h
  | text => simp [Arg.read, ha] at h

/-- The parity of a field that holds a register. -/
theorem parity_of_extract {a : Arg} {f : Field 32} (hf : f ∈ a.fields) {w : BitVec 32} {r : BitVec 5}
    (h : f.extract w = r.setWidth 32 &&& f.mask) : (f.extract w).getLsbD 0 = r.getLsbD 0 := by
  rw [h, BitVec.getLsbD_and, mask_of_mem_fields hf, Bool.and_true]
  simp

/-! Accepted lines. -/

section Lines
variable {c : Target} {e : Opcode} {os : List Operand} {vs : List (BitVec 32 × Bool)}

/-- A marked operand that was not complained about is even. -/
theorem even_of_isPair (hx : c.xlen = .rv32) (hwf : e.WellFormed) (hr : readAll c e.args os = some vs)
    (hb : vs.any Prod.snd = false) {a : Arg} (ha : a ∈ e.args) (hp : a.isPair = true) {f : Field 32}
    (hf : f ∈ a.fields) : (f.extract (e.encode vs)).getLsbD 0 = false := by
  obtain ⟨o, _, v, hv, hread, hstores⟩ := mem_storesAll hr ha
  obtain ⟨r, _, hval, hbad⟩ := reg_of_read (isReg_of_isPair hp) hread
  have hext := extract_encode hwf hr (hstores f hf)
  rw [hval] at hext
  rw [parity_of_extract hf hext]
  have hvb : v.2 = false := by simpa using List.any_eq_false.mp hb v hv
  simpa [hp, hx, hvb] using hbad

/-- Three plain registers are read from a line of three registers. -/
theorem regs_of_readAll (hr : readAll c [.d, .s, .t] os = some vs) :
    ∃ d s t, os = [.reg d, .reg s, .reg t] := by
  match os, hr with
  | [], hr => cases hr
  | [o₁], hr => simp [readAll] at hr
  | [o₁, o₂], hr => simp [readAll] at hr
  | o₁ :: o₂ :: o₃ :: o₄ :: os, hr => simp [readAll] at hr
  | [o₁, o₂, o₃], hr =>
    obtain ⟨v₁, vs₁, h₁, hr₁, _⟩ := readAll_cons hr
    obtain ⟨v₂, vs₂, h₂, hr₂, _⟩ := readAll_cons hr₁
    obtain ⟨v₃, vs₃, h₃, _, _⟩ := readAll_cons hr₂
    obtain ⟨d, rfl, _⟩ := reg_of_read rfl h₁
    obtain ⟨s, rfl, _⟩ := reg_of_read rfl h₂
    obtain ⟨t, rfl, _⟩ := reg_of_read rfl h₃
    exact ⟨d, s, t, rfl⟩

/-- The destination field of a line with plain operands. -/
theorem parity_rd (hwf : e.WellFormed) (hargs : e.args = [.d, .s, .t]) {d s t : BitVec 5}
    (hr : readAll c e.args [.reg d, .reg s, .reg t] = some vs) :
    (opRd.extract (e.encode vs)).getLsbD 0 = d.getLsbD 0 := by
  rw [hargs] at hr
  obtain ⟨v, vs', hv, _, rfl⟩ := readAll_cons hr
  obtain ⟨r, hreg, hval, _⟩ := reg_of_read (a := .d) rfl hv
  obtain rfl := Operand.reg.inj hreg
  have hmem : (opRd, v.1) ∈ storesAll e.args (v :: vs') := by
    rw [hargs]
    exact List.mem_append_left _ (List.mem_singleton.mpr rfl)
  rw [← hargs] at hr
  have hext := extract_encode hwf hr hmem
  rw [hval] at hext
  exact parity_of_extract (a := .d) (List.mem_singleton.mpr rfl) hext

end Lines

/-- The one kind of line that encodes an odd pair: `smbb32` with an odd destination. -/
def OddSmbb32 (c : Target) (name : Mnemonic) (os : List Operand) : Prop :=
  name = .smbb32 ∧ c.supports .zpn = true ∧
    ∃ d s t, os = [.reg d, .reg s, .reg t] ∧ d.toNat % 2 = 1

theorem pairsEven_of_not_odd {c : Target} (hx : c.xlen = .rv32) {name : Mnemonic} {os : List Operand}
    (h : ¬ OddSmbb32 c name os) : PairsEven c name os := by
  intro w hacc g hg _ _ hmatch a ha hp f hf
  obtain ⟨e, he, rfl, hav, hpi, _, vs, hr, rfl, hb⟩ := hacc.entry
  have hwf := wellFormed_of_mem he hpi
  have hxreq : e.xlenRequirement ≠ some .rv64 := by
    intro hreq
    simp [Opcode.available, hreq, hx] at hav
  obtain ⟨b, hbit, heven⟩ := even_iff_clear hp hf (e.encode vs)
  rw [heven]
  obtain hclear | hea | ⟨hname, hcls, hargs, _, rfl⟩ :=
    bit_clear he hg hpi hxreq (encode_and_mask hwf hr) (of_matchWord hg hmatch).2 ha hbit
  · exact hclear
  · -- the entry has the mark itself
    rw [← heven, ← getLsbD_zero_iff]
    exact even_of_isPair hx hwf hr hb hea hp hf
  · -- the entry whose word the other one shares when its register is odd
    obtain rfl : f = opRd := List.mem_singleton.mp hf
    obtain ⟨d, s, t, rfl⟩ := regs_of_readAll (hargs ▸ hr)
    rw [← heven, ← getLsbD_zero_iff, parity_rd hwf hargs hr, getLsbD_zero_iff]
    have hsup : c.supports .zpn = true := by
      rw [Opcode.available, hcls, Bool.and_eq_true] at hav
      exact hav.2
    by_contra hodd
    exact h ⟨hname, hsup, d, s, t, rfl, by omega⟩

/-- `smbb32` is there for both xlens, and `mulsr64` has its encoding. -/
theorem smbb32_entry : ∃ e ∈ riscvOpcodes, e.name = .smbb32 ∧ candidates riscvOpcodes e.name = [e] ∧
    e.xlenRequirement = none ∧ e.insnClass = .zpn ∧ e.args = [.d, .s, .t] ∧
    e.matchFunc = .opcode ∧ e.pinfo = .insnAlias ∧
    ∃ g ∈ riscvOpcodes, g.insnClass = .zpsfoperand ∧ g.xlenRequirement = none ∧ .pairD ∈ g.args ∧
      g.matchFunc = .opcode ∧ g.matchBits = e.matchBits ∧ g.mask = e.mask := by
  refine ⟨⟨.smbb32, none, .zpn, [.d, .s, .t], 0xe0001077, 0xfe00707f, .opcode, .insnAlias⟩,
    by decide +kernel, rfl, by decide +kernel, rfl, rfl, rfl, rfl, rfl,
    ⟨.mulsr64, none, .zpsfoperand, [.pairD, .s, .t], 0xe0001077, 0xfe00707f, .opcode, .plain⟩,
    by decide +kernel, rfl, rfl, by decide, rfl, rfl, rfl⟩

theorem not_pairsEven_of_odd {c : Target} {name : Mnemonic} {os : List Operand}
    (h : OddSmbb32 c name os) : ¬ PairsEven c name os := by
  obtain ⟨rfl, hsup, d, s, t, rfl, hodd⟩ := h
  obtain ⟨e, he, hname, hcand, hxreq, hcls, hargs, hm, hp, g, hg, hgcls, hgx, hgpair, hgm, hbits, hmask⟩ :=
    smbb32_entry
  have hpi : e.pinfo ≠ .insnMacro := by rw [hp]; decide
  have hwf := wellFormed_of_mem he hpi
  have hav : e.available c = true := by simp [Opcode.available, hxreq, hcls, hsup]
  have hr : readAll c e.args [.reg d, .reg s, .reg t] =
      some [(d.setWidth 32, false), (s.setWidth 32, false), (t.setWidth 32, false)] := by
    rw [hargs]
    rfl
  have hmatch := (matchOpcode_iff hwf.inMask).mpr (encode_and_mask hwf hr)
  have hacc := riscvIp_of_alone hcand hav hpi hr (by rw [Opcode.matchWord, hm]; exact hmatch)
  rw [hname] at hacc
  intro hev
  have heven := hev _ hacc g hg hgcls (by rw [hgx]; decide)
    (by rw [Opcode.matchWord, hgm, hbits, hmask]; exact hmatch) .pairD hgpair rfl opRd
    (List.mem_singleton.mpr rfl)
  rw [← getLsbD_zero_iff, parity_rd hwf hargs hr, getLsbD_zero_iff] at heven
  omega

theorem pairsEven_iff {c : Target} (hx : c.xlen = .rv32) (name : Mnemonic) (os : List Operand) :
    PairsEven c name os ↔ ¬ OddSmbb32 c name os := by
  constructor
  · intro hev hodd
    exact not_pairsEven_of_odd hodd hev
  · exact pairsEven_of_not_odd hx

theorem pairsEven_smbb32_even : ¬ OddSmbb32 rv32All .smbb32 [.reg 10, .reg 11, .reg 12] ∧
    PairsEven rv32All .smbb32 [.reg 10, .reg 11, .reg 12] := by
  have h : ¬ OddSmbb32 rv32All .smbb32 [.reg 10, .reg 11, .reg 12] := by
    intro ⟨_, _, d, s, t, hos, hodd⟩
    obtain rfl : 10 = d := by simpa using (List.cons.inj hos).1
    exact absurd hodd (by decide)
  exact ⟨h, (pairsEven_iff rfl .smbb32 _).mpr h⟩

/-- `smbb32 a1, a2, a3` is the word of `mulsr64 a1, a2, a3`, and a1 is x11. -/
theorem not_pairsEven : ¬ PairsEven rv32All .smbb32 [.reg 11, .reg 12, .reg 13] := by
  intro h
  have hacc : Accepts rv32All riscvOpcodes .smbb32 [.reg 11, .reg 12, .reg 13]
      0xe0d615f7 := by decide +kernel
  have heven := h _ hacc
    ⟨.mulsr64, none, .zpsfoperand, [.pairD, .s, .t], 0xe0001077, 0xfe00707f, .opcode, .plain⟩
    (by decide +kernel) rfl (by decide) (by decide) .pairD (by decide) rfl opRd (by simp [Arg.fields])
  exact absurd heven (by decide)

end Binutils
