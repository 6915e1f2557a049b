import RiscvToolchain.Binutils.Reassemble

/- Assemble, disassemble, assemble again, for every added entry and all operands in range,
   with the extensions p and xbp, what they imply, and xflush enabled.

   The word of an entry disassembles to the first entry of the table that fits it, which
   may be another one: an alias, or an entry of the original table. Whichever it is, what
   is printed for it is in range for it (the clear bits of `SharedWords`), so the entry
   assembles the word again (`reassemble`); and `riscv_ip` does reach it, because the
   entries of the same name that stand before it would have fitted the word as well, or
   ask for a register where a number is printed. The exception is `zext.h`: the entries
   for XBP stand behind the pseudo instruction of that name, which every target has, so
   `riscv_ip` expands the line and never comes to them.

   The disassembler goes through the whole table of binutils. Its entries that are not
   modelled are a parameter, of which only that they do not fit the words in question is
   asked (`Scanned`). -/
namespace Binutils
open Semantics

def opcodeTable : List Opcode := baseEntries ++ riscvOpcodes

/-- The classes of p and xbp with what they imply, and of xflush. -/
def pXbpXflush : InsnClass → Bool
  | .i | .zmmul | .zbpbo | .zpn | .zpsfoperand | .xbp | .xflush => true
  | _ => false

/-- The classes of the entries that the patches add, xgost apart. -/
def Opcode.isAdded (e : Opcode) : Bool :=
  match e.insnClass with
  | .xbp | .xflush | .zbpbo | .zpn | .zpsfoperand => true
  | _ => false

structure Opcode.Added (e : Opcode) : Prop where
  mem : e ∈ riscvOpcodes
  isAdded : e.isAdded = true

section Disassembler
variable {U : Type}

/-- The disassembler over a table with further entries `u`, that fit a word by `fits`. -/
def disassembleAll (c : Target) (fits : U → BitVec 32 → Bool) (table : List (U ⊕ Opcode))
    (w : BitVec 32) : Option (U ⊕ Mnemonic × List Operand) :=
  (table.find? (Sum.elim (fun u => fits u w) fun e => e.matchWord w && e.available c)).map
    (Sum.map id fun e => (e.name, printInsnArgs c.xlen e.args w))

/-- The whole table: the entries modelled here in their order, and others that fit no word
    of an added entry. -/
structure Scanned (c : Target) (fits : U → BitVec 32 → Bool) (table : List (U ⊕ Opcode)) : Prop where
  modelled : table.filterMap Sum.getRight? = opcodeTable
  others : ∀ u, .inl u ∈ table → ∀ e : Opcode, e.Added → e.available c = true →
    ∀ w, e.matchWord w = true → fits u w = false

theorem find?_sum {p : U ⊕ Opcode → Bool} {table : List (U ⊕ Opcode)}
    (h : ∀ u, .inl u ∈ table → p (.inl u) = false) :
    table.find? p = ((table.filterMap Sum.getRight?).find? fun e => p (.inr e)).map .inr := by
  induction table with
  | nil => rfl
  | cons x table ih =>
    have ih := ih fun u hu => h u (List.mem_cons_of_mem _ hu)
    cases x with
    | inl u =>
      rw [List.find?_cons, h u List.mem_cons_self, ih]
      rfl
    | inr e =>
      rw [List.find?_cons, List.filterMap_cons]
      simp only [Sum.getRight?_inr, List.find?_cons]
      cases p (.inr e) with
      | true => rfl
      | false => exact ih

/-- The entries that are not modelled do not change what a word of an added entry is
    disassembled to. -/
theorem disassembleAll_eq {c : Target} {fits : U → BitVec 32 → Bool} {table : List (U ⊕ Opcode)}
    (hs : Scanned c fits table) {e : Opcode} (he : e.Added) (ha : e.available c = true) {w : BitVec 32}
    (hw : e.matchWord w = true) :
    disassembleAll c fits table w = (disassemble c opcodeTable w).map .inr := by
  rw [disassembleAll, find?_sum, hs.modelled, disassemble, Option.map_map, Option.map_map]
  · rfl
  · exact fun u hu => hs.others u hu e he ha w hw

end Disassembler

/-! Entries of one name. -/

/-- The entries stand in the order of their mnemonics, so those of one name together. -/
theorem opcodeTable_sorted : opcodeTable.Pairwise fun e g => e.name.ctorIdx ≤ g.name.ctorIdx := by
  rw [← List.isChain_iff_pairwise]
  decide +kernel

theorem ctorIdx_inj {m n : Mnemonic} (h : m.ctorIdx = n.ctorIdx) : m = n := by
  rw [← Mnemonic.ofNat_ctorIdx m, h, Mnemonic.ofNat_ctorIdx]

section Names
variable {l : List Opcode}

theorem takeWhile_eq_filter {name : Mnemonic} (h : l.Pairwise fun e g => e.name.ctorIdx ≤ g.name.ctorIdx)
    (hle : ∀ e ∈ l, name.ctorIdx ≤ e.name.ctorIdx) :
    l.takeWhile (fun e => e.name == name) = l.filter fun e => e.name == name := by
  induction l with
  | nil => rfl
  | cons e l ih =>
    rw [List.pairwise_cons] at h
    rw [List.takeWhile_cons, List.filter_cons]
    split
    · rw [ih h.2 fun g hg => hle g (List.mem_cons_of_mem _ hg)]
    · next hne =>
      -- past the first other name, every entry has a later one
      rw [eq_comm, List.filter_eq_nil_iff]
      intro g hg hgn
      have h₁ := hle e List.mem_cons_self
      have h₂ := h.1 g hg
      rw [beq_iff_eq.mp hgn] at h₂
      exact hne (beq_iff_eq.mpr (ctorIdx_inj (Nat.le_antisymm h₂ h₁)))

theorem candidates_eq_filter (h : l.Pairwise fun e g => e.name.ctorIdx ≤ g.name.ctorIdx)
    (name : Mnemonic) : candidates l name = l.filter fun e => e.name == name := by
  induction l with
  | nil => rfl
  | cons e l ih =>
    have hp := List.pairwise_cons.mp h
    by_cases hn : e.name = name
    · rw [candidates, List.dropWhile_cons, if_neg (by simp [hn]), takeWhile_eq_filter h]
      intro g hg
      cases hg with
      | head => rw [hn]
      | tail _ hg => rw [← hn]; exact hp.1 g hg
    · have hskip : candidates (e :: l) name = candidates l name := by
        rw [candidates, List.dropWhile_cons, if_pos (by simp [hn])]
        rfl
      rw [hskip, ih hp.2, List.filter_cons, if_neg (by simp [hn])]

/-- A condition on the entries that follow with the same name. -/
def aheadAll (ok : Opcode → Opcode → Bool) : List Opcode → Bool
  | [] => true
  | g :: l => (l.takeWhile fun f => f.name == g.name).all (ok g) && aheadAll ok l

theorem pairwise_of_aheadAll {ok : Opcode → Opcode → Bool}
    (hs : l.Pairwise fun e g => e.name.ctorIdx ≤ g.name.ctorIdx) (h : aheadAll ok l = true) :
    l.Pairwise fun g f => g.name = f.name → ok g f = true := by
  induction l with
  | nil => exact .nil
  | cons g l ih =>
    rw [List.pairwise_cons] at hs
    rw [aheadAll, Bool.and_eq_true, List.all_eq_true, takeWhile_eq_filter hs.2 hs.1] at h
    refine .cons (fun f hf hname => ?_) (ih hs.2 h.2)
    exact h.1 f (List.mem_filter.mpr ⟨hf, by simp [hname]⟩)

end Names

/-! The entry that a word is disassembled to. -/

theorem of_matchWord_table {f : Opcode} (hf : f ∈ opcodeTable) {w : BitVec 32}
    (h : f.matchWord w = true) : f.pinfo ≠ .insnMacro ∧ f.WellFormed ∧ w &&& f.mask = f.matchBits := by
  obtain hf | hf := List.mem_append.mp hf
  · have hbase : baseEntries.all (fun f =>
        decide (f.pinfo ≠ .insnMacro ∧ f.WellFormed ∧ f.matchFunc = .opcode)) = true := by decide +kernel
    obtain ⟨hp, hwf, hm⟩ := of_decide_eq_true (List.all_eq_true.mp hbase f hf)
    rw [Opcode.matchWord, hm] at h
    exact ⟨hp, hwf, (matchOpcode_iff hwf.inMask).mp h⟩
  · obtain ⟨hp, hw⟩ := of_matchWord hf h
    exact ⟨hp, wellFormed_of_mem hf hp, hw⟩

/-- `f` is the first entry of the table that fits the word. -/
structure FirstFit (c : Target) (w : BitVec 32) (f : Opcode) : Prop where
  fits : f.matchWord w = true
  available : f.available c = true
  first : ∃ l r, opcodeTable = l ++ f :: r ∧ ∀ g ∈ l, g.available c = true → g.matchWord w = false

theorem disassemble_eq_some {c : Target} {w : BitVec 32} {e : Opcode} (he : e ∈ opcodeTable)
    (ha : e.available c = true) (hw : e.matchWord w = true) :
    ∃ f, FirstFit c w f ∧
      disassemble c opcodeTable w = some (f.name, printInsnArgs c.xlen f.args w) := by
  cases hf : opcodeTable.find? fun e => e.matchWord w && e.available c with
  | none =>
    have := List.find?_eq_none.mp hf e he
    simp [ha, hw] at this
  | some f =>
    obtain ⟨hfit, l, r, htable, hnone⟩ := List.find?_eq_some_iff_append.mp hf
    rw [Bool.and_eq_true] at hfit
    refine ⟨f, ⟨hfit.1, hfit.2, l, r, htable, ?_⟩, ?_⟩
    · intro g hg hga
      simpa [hga] using hnone g hg
    · rw [disassemble, hf]
      rfl

theorem FirstFit.mem {c : Target} {w : BitVec 32} {f : Opcode} (h : FirstFit c w f) : f ∈ opcodeTable := by
  obtain ⟨l, r, htable, _⟩ := h.first
  rw [htable]
  exact List.mem_append_right _ List.mem_cons_self

theorem mem_of_takeWhile_ne {α : Type} [DecidableEq α] {f g : α} {l r : List α}
    (h : g ∈ (l ++ f :: r).takeWhile fun x => x != f) : g ∈ l := by
  induction l with
  | nil => simp at h
  | cons x l ih =>
    rw [List.cons_append, List.takeWhile_cons] at h
    split at h
    · cases h with
      | head => exact List.mem_cons_self
      | tail _ h => exact List.mem_cons_of_mem _ (ih h)
    · cases h

/-- An entry that stands before `f` and fits the word whenever `f` does. -/
theorem FirstFit.not_before {c : Target} {w : BitVec 32} {f g : Opcode} (h : FirstFit c w f)
    (hg : g ∈ opcodeTable.takeWhile fun x => x != f) (ha : g.available c = true) :
    g.matchWord w = false := by
  obtain ⟨l, r, htable, hnone⟩ := h.first
  rw [htable] at hg
  exact hnone g (mem_of_takeWhile_ne hg) ha

/-- `mulsr64` and `swap16` stand behind `smbb32` and `pkbt16`, which have their encodings. -/
theorem shadowed_table : opcodeTable.all (fun f => !(f.name == .mulsr64 || f.args.contains .v) ||
    (opcodeTable.takeWhile fun x => x != f).any fun g => g.insnClass == .zpn &&
      g.xlenRequirement == none && g.matchFunc == .opcode && g.matchBits == f.matchBits &&
      g.mask == f.mask) = true := by
  decide +kernel

theorem FirstFit.not_shadowed {c : Target} (hs : c.supports = pXbpXflush) {w : BitVec 32} {f : Opcode}
    (h : FirstFit c w f) : f.name ≠ .mulsr64 ∧ .v ∉ f.args := by
  rw [← not_or]
  intro hf
  have hcheck := List.all_eq_true.mp shadowed_table f h.mem
  rw [Bool.or_eq_true] at hcheck
  have hany := hcheck.resolve_left (by
    rw [Bool.not_eq_true', Bool.not_eq_false, Bool.or_eq_true, beq_iff_eq, List.contains_iff_mem]
    exact hf)
  obtain ⟨g, hg, hgood⟩ := List.any_eq_true.mp hany
  simp only [Bool.and_eq_true, beq_iff_eq] at hgood
  obtain ⟨⟨⟨⟨hcls, hx⟩, hm⟩, hbits⟩, hmask⟩ := hgood
  have ha : g.available c = true := by simp [Opcode.available, hx, hs, hcls, pXbpXflush]
  have hno := h.not_before hg ha
  obtain ⟨_, hwf, hw⟩ := of_matchWord_table h.mem h.fits
  rw [Opcode.matchWord, hm, hbits, hmask, (matchOpcode_iff hwf.inMask).mpr hw] at hno
  cases hno

/-! `riscv_ip` reaches the entry. -/

/-- No target of this kind has both entries. -/
def apart (g f : Opcode) : Bool :=
  !pXbpXflush g.insnClass || match g.xlenRequirement, f.xlenRequirement with
    | some x, some y => x != y
    | _, _ => false

/-- Why an entry `g` that stands before `f` with the same name does not take a line that
    is printed for `f`: it would have fitted the word first, or it asks for a register. -/
def passedOver (g f : Opcode) : Bool :=
  apart g f || (g.matchFunc == f.matchFunc && g.matchBits == f.matchBits && g.mask == f.mask) ||
    (g.args == [.d, .s, .t] && (f.args == [.d, .s, .shamt] || f.args == [.d, .s, .shamtw])) ||
    f.name == .zext_h

theorem passedOver_table : aheadAll passedOver opcodeTable = true := by decide +kernel

section Reach
variable {c : Target}

theorem not_apart (hs : c.supports = pXbpXflush) {g f : Opcode} (hg : g.available c = true)
    (hf : f.available c = true) : apart g f = false := by
  simp only [Opcode.available, Bool.and_eq_true, Bool.or_eq_true, beq_iff_eq, hs] at hg hf
  rw [apart, hg.2, Bool.not_true, Bool.false_or]
  split
  · next x y hx hy =>
    rw [hx] at hg
    rw [hy] at hf
    simp only [reduceCtorEq, Option.some.injEq, false_or] at hg hf
    simp [hg.1, hf.1]
  · rfl

theorem tryEntries_append {os : List Operand} {l r : List Opcode}
    (h : ∀ g ∈ l, g.available c = true → tryEntry c os g = (none, false)) :
    tryEntries c os (l ++ r) = tryEntries c os r := by
  induction l with
  | nil => rfl
  | cons g l ih =>
    have ih := ih fun g' hg' => h g' (List.mem_cons_of_mem _ hg')
    rw [List.cons_append, tryEntries]
    split
    · next ha =>
      rw [h g List.mem_cons_self ha]
      simp only [Bool.false_or, ih]
    · exact ih

theorem tryEntry_of_imm {g : Opcode} (hg : g.args = [.d, .s, .t]) (r₁ r₂ : BitVec 5) (n : BitVec 64) :
    tryEntry c [.reg r₁, .reg r₂, .imm n] g = (none, false) := by
  rw [tryEntry, hg]
  rfl

/-- An entry takes operands in range without a complaint. -/
theorem tryEntry_of_admits (hc : c.NormalizesConstants) {f : Opcode} {os : List Operand}
    (h : List.Forall₂ (Arg.Admits c.xlen) f.args os) (hp : f.pinfo ≠ .insnMacro)
    (hm : f.matchWord (f.word os) = true) : tryEntry c os f = (some (.word (f.word os)), false) := by
  have hr := readAll_of_admits hc h
  have hb : (os.map fun o => (o.value, false)).any Prod.snd = false := by
    rw [List.any_eq_false]
    simp
  rw [tryEntry, operands_eq hr, hb]
  exact (if_neg hp).trans (if_pos hm)

theorem FirstFit.accepts (hc : c.NormalizesConstants) (hs : c.supports = pXbpXflush) {w : BitVec 32}
    {f : Opcode} (h : FirstFit c w f) (hz : f.name ≠ .zext_h)
    (hclear : ∀ a ∈ f.args, a.Clear c.xlen w) :
    Accepts c opcodeTable f.name (printInsnArgs c.xlen f.args w) w := by
  obtain ⟨hp, hwf, hw⟩ := of_matchWord_table h.mem h.fits
  obtain ⟨hadm, hword⟩ := reassemble hwf hw (h.not_shadowed hs).2 hclear
  have htry := tryEntry_of_admits hc hadm hp (by rw [hword]; exact h.fits)
  obtain ⟨l, r, htable, hnone⟩ := h.first
  have hok := pairwise_of_aheadAll opcodeTable_sorted passedOver_table
  rw [Accepts, riscvIp, candidates_eq_filter opcodeTable_sorted, htable, List.filter_append,
    List.filter_cons, if_pos (by simp), tryEntries_append, tryEntries, if_pos h.available, htry, hword]
  -- the entries of the same name that stand before it
  intro g hg ha
  obtain ⟨hgl, hname⟩ := List.mem_filter.mp hg
  rw [htable, List.pairwise_append] at hok
  have hpass := hok.2.2 g hgl f List.mem_cons_self (beq_iff_eq.mp hname)
  simp only [passedOver, not_apart hs ha h.available, Bool.false_or, Bool.or_eq_true, Bool.and_eq_true,
    beq_iff_eq, hz, or_false] at hpass
  obtain ⟨⟨hm, hbits⟩, hmask⟩ | ⟨hgargs, hfargs | hfargs⟩ := hpass
  · have hno := hnone g hgl ha
    have hsame : g.matchWord w = f.matchWord w := by
      rw [Opcode.matchWord, Opcode.matchWord, hm, hbits, hmask]
    rw [hsame, h.fits] at hno
    cases hno
  · rw [hfargs]
    exact tryEntry_of_imm hgargs _ _ _
  · rw [hfargs]
    exact tryEntry_of_imm hgargs _ _ _

end Reach

/-! The words of added entries. -/

theorem Opcode.Added.not_insnMacro {e : Opcode} (he : e.Added) : e.pinfo ≠ .insnMacro := by
  have h : riscvOpcodes.all (fun e => !e.isAdded || e.pinfo != .insnMacro) = true := by decide +kernel
  simpa [he.isAdded] using List.all_eq_true.mp h e he.mem

section Words
variable {c : Target} (hc : c.NormalizesConstants) {e : Opcode} (he : e ∈ riscvOpcodes)
  (hp : e.pinfo ≠ .insnMacro) {os : List Operand} (hos : List.Forall₂ (Arg.Admits c.xlen) e.args os)

/-- The entries of a word of their own; 'v' is the operand of the one that compares RS1
    and RS2. -/
theorem matchFunc_table : riscvOpcodes.all (fun e => e.pinfo == .insnMacro || e.matchFunc == .opcode ||
    (e.matchFunc == .rs1EqRs2 && e.args == [.d, .v])) = true := by
  decide +kernel

include hc he hp hos in
theorem matchWord_word : e.matchWord (e.word os) = true := by
  have hwf := wellFormed_of_mem he hp
  have hr := readAll_of_admits hc hos
  have hbits := (matchOpcode_iff hwf.inMask).mpr (encode_and_mask hwf hr)
  have hcheck := List.all_eq_true.mp matchFunc_table e he
  simp only [Bool.or_eq_true, Bool.and_eq_true, beq_iff_eq, hp, false_or] at hcheck
  obtain hm | ⟨hm, hargs⟩ := hcheck
  · rw [Opcode.matchWord, hm]
    exact hbits
  · obtain ⟨o, _, v, _, _, hstores⟩ := mem_storesAll hr (a := .v) (by rw [hargs]; decide)
    have h₁ := extract_encode hwf hr (hstores opRs1 (by simp [Arg.fields]))
    have h₂ := extract_encode hwf hr (hstores opRs2 (by simp [Arg.fields]))
    rw [Opcode.matchWord, hm]
    simp only [Bool.and_eq_true, beq_iff_eq]
    exact ⟨h₁.trans h₂.symm, beq_iff_eq.mp hbits⟩

theorem clearBit_baseEntries : baseEntries.all (fun f => f.args.all fun a => a.clearBit.isNone) = true := by
  decide +kernel

include hc he hp hos in
/-- What is printed for the word is in range. -/
theorem clear_word (hs : c.supports = pXbpXflush) (ha : e.available c = true) {f : Opcode}
    (h : FirstFit c (e.word os) f) : ∀ a ∈ f.args, a.Clear c.xlen (e.word os) := by
  intro a haf hx b hb
  have hwf := wellFormed_of_mem he hp
  have hxreq : e.xlenRequirement ≠ some .rv64 := by
    intro hreq
    simp [Opcode.available, hreq, hx] at ha
  obtain hf | hf := List.mem_append.mp h.mem
  · have hnone := List.all_eq_true.mp (List.all_eq_true.mp clearBit_baseEntries f hf) a haf
    rw [hb] at hnone
    cases hnone
  · have hwe := encode_and_mask hwf (readAll_of_admits hc hos)
    obtain hclear | hae | ⟨_, _, _, hname, _⟩ :=
      bit_clear he hf hp hxreq hwe (of_matchWord hf h.fits).2 haf hb
    · exact hclear
    · -- the bit belongs to an operand of the entry itself, which is in range
      have hdec := decode_word hc hwf hos
      rw [← hdec, List.forall₂_map_right_iff, List.forall₂_same] at hos
      exact clear_of_admits (hos a hae) hx b hb
    · exact absurd hname (h.not_shadowed hs).1

end Words

/-! The words of `zext.h`. -/

/-- The entry of `zext.h` for XBP. -/
def zextH : Xlen → Opcode
  | .rv32 => ⟨.zext_h, some .rv32, .xbp, [.d, .s], 0x08004033, 0xfff0707f, .opcode, .insnAlias⟩
  | .rv64 => ⟨.zext_h, some .rv64, .xbp, [.d, .s], 0x0800403b, 0xfff0707f, .opcode, .insnAlias⟩

/-- The pseudo instruction stands before the entries for XBP. -/
theorem filter_zextH : opcodeTable.filter (fun e => e.name == .zext_h) =
    [⟨.zext_h, some .rv32, .zbb, [.d, .s], 0x08004033, 0xfff0707f, .opcode, .plain⟩,
      ⟨.zext_h, some .rv64, .zbb, [.d, .s], 0x0800403b, 0xfff0707f, .opcode, .plain⟩,
      ⟨.zext_h, none, .i, [.d, .s], 0, 0, .never, .insnMacro⟩, zextH .rv32, zextH .rv64] := by
  decide +kernel

/-- Every other entry before `zextH` is for another class or has other fixed bits. -/
theorem before_zextH (xlen : Xlen) : (opcodeTable.takeWhile fun g => g != zextH xlen).all (fun g =>
    !pXbpXflush g.insnClass || g.matchFunc == .never || g.conflicts (zextH xlen)) = true := by
  cases xlen <;> decide +kernel

section ZextH
variable {c : Target} (hs : c.supports = pXbpXflush)

include hs in
/-- A line of `zext.h` is expanded, whatever its word would be. -/
theorem riscvIp_zextH (d s : BitVec 5) :
    riscvIp c opcodeTable .zext_h [.reg d, .reg s] = (some .expansion, false) := by
  rw [riscvIp, candidates_eq_filter opcodeTable_sorted, filter_zextH]
  simp only [tryEntries, Opcode.available, hs, pXbpXflush, Bool.and_false, Bool.false_eq_true, if_false]
  rfl

theorem matchWord_zextH {xlen : Xlen} {w : BitVec 32} :
    (zextH xlen).matchWord w = true ↔ w &&& (zextH xlen).mask = (zextH xlen).matchBits := by
  cases xlen <;> exact matchOpcode_iff (by decide)

include hs in
theorem FirstFit.eq_zextH {w : BitVec 32} {f : Opcode} (h : FirstFit c w f) (hname : f.name = .zext_h) :
    f = zextH c.xlen := by
  have hmem : f ∈ opcodeTable.filter fun e => e.name == .zext_h :=
    List.mem_filter.mpr ⟨h.mem, by simp [hname]⟩
  have ha := h.available
  have hm := h.fits
  rw [filter_zextH] at hmem
  simp only [List.mem_cons, List.not_mem_nil, or_false] at hmem
  obtain rfl | rfl | rfl | rfl | rfl := hmem
  · simp [Opcode.available, hs, pXbpXflush] at ha
  · simp [Opcode.available, hs, pXbpXflush] at ha
  · cases hm
  · cases hx : c.xlen with
    | rv32 => rfl
    | rv64 => simp [Opcode.available, zextH, hx] at ha
  · cases hx : c.xlen with
    | rv32 => simp [Opcode.available, zextH, hx] at ha
    | rv64 => rfl

theorem mem_takeWhile_ne {α : Type} [DecidableEq α] {f z : α} {l r : List α} (hl : z ∉ l) (hf : f ≠ z) :
    f ∈ (l ++ f :: r).takeWhile fun x => x != z := by
  induction l with
  | nil => simp [hf]
  | cons x l ih =>
    rw [List.mem_cons, not_or] at hl
    rw [List.cons_append, List.takeWhile_cons, if_pos (by simpa using Ne.symm hl.1)]
    exact List.mem_cons_of_mem _ (ih hl.2)

include hs in
/-- A word of `zext.h` is disassembled to it. -/
theorem FirstFit.of_zextH {w : BitVec 32} {f : Opcode} (h : FirstFit c w f)
    (hw : (zextH c.xlen).matchWord w = true) : f = zextH c.xlen := by
  by_contra hne
  obtain ⟨l, r, htable, hnone⟩ := h.first
  have hav : (zextH c.xlen).available c = true := by
    cases hx : c.xlen <;> simp [Opcode.available, zextH, hx, hs, pXbpXflush]
  have hz : zextH c.xlen ∉ l := by
    intro hz
    rw [hnone _ hz hav] at hw
    cases hw
  have hcheck := List.all_eq_true.mp (before_zextH c.xlen) f (htable ▸ mem_takeWhile_ne hz hne)
  have hcls : pXbpXflush f.insnClass = true := by
    have ha := h.available
    rw [Opcode.available, Bool.and_eq_true, hs] at ha
    exact ha.2
  obtain ⟨hp, hwf, hbits⟩ := of_matchWord_table h.mem h.fits
  have hnever : f.matchFunc ≠ .never := by
    intro hm
    have hfits := h.fits
    rw [Opcode.matchWord, hm] at hfits
    cases hfits
  simp [hcls, hnever, not_conflicts hbits (matchWord_zextH.mp hw)] at hcheck

end ZextH

/-- The entries of which some words are words of `zext.h`, and the place of the operand
    that is RS2. -/
def packPlace (xlen : Xlen) (name : Mnemonic) : Option Nat :=
  match xlen, name with
  | .rv32, .pack => some 2
  | .rv32, .pkbb16 => some 1
  | .rv64, .packw => some 2
  | _, _ => none

/-- The operands that give an entry a word of `zext.h`: any for `zext.h` itself, and x0 for
    RS2 of `pack` and `pkbb16` on RV32 and of `packw` on RV64. -/
def ZextHWord (xlen : Xlen) (e : Opcode) (os : List Operand) : Prop :=
  e.name = .zext_h ∨ ∃ i, packPlace xlen e.name = some i ∧ os[i]? = some (.reg 0)

def sharesZextH (xlen : Xlen) (e : Opcode) : Bool :=
  if e.name == .zext_h then e.matchBits == (zextH xlen).matchBits && e.mask == (zextH xlen).mask
  else match packPlace xlen e.name with
    | some i => e.matchBits == (zextH xlen).matchBits && e.args[i]? == some .t &&
        e.mask ||| opRs2.footprint == (zextH xlen).mask && e.matchBits &&& opRs2.footprint == 0#32
    | none => e.conflicts (zextH xlen)

theorem sharesZextH_table (xlen : Xlen) : riscvOpcodes.all (fun e => !e.isAdded ||
    !(e.xlenRequirement == none || e.xlenRequirement == some xlen) || sharesZextH xlen e) = true := by
  cases xlen <;> decide +kernel

/-- With the bits of a mask fixed, the further bits of a wider mask decide. -/
theorem and_or_eq_iff {w m k x : BitVec 32} (hw : w &&& m = k) (hk : k &&& x = 0#32) :
    w &&& (m ||| x) = k ↔ w &&& x = 0#32 := by
  rw [BitVec.and_or_distrib_left, hw]
  constructor
  · intro h
    calc w &&& x = (k ||| w &&& x) &&& x := by
          rw [BitVec.and_or_distrib_right, hk, BitVec.zero_or, BitVec.and_assoc, BitVec.and_self]
      _ = 0#32 := by rw [h, hk]
  · intro h
    rw [h, BitVec.or_zero]

theorem decode_t_iff (w : BitVec 32) : Arg.decode w .t = .reg 0 ↔ opRs2.extract w = 0#32 := by
  constructor
  · intro h
    have hv := value_decode .t w
    rw [h] at hv
    exact hv.symm
  · intro h
    have hd : Arg.decode w .t = .reg ((opRs2.extract w).setWidth 5) := rfl
    rw [hd, h]
    rfl

section SharedZextH
variable {c : Target} (hc : c.NormalizesConstants) {e : Opcode} (he : e.Added)
  (ha : e.available c = true) {os : List Operand}
  (hos : List.Forall₂ (Arg.Admits c.xlen) e.args os)

include hc he ha hos in
theorem matchWord_zextH_iff : (zextH c.xlen).matchWord (e.word os) = true ↔ ZextHWord c.xlen e os := by
  have hp := he.not_insnMacro
  have hwf := wellFormed_of_mem he.1 hp
  have hwe : e.word os &&& e.mask = e.matchBits := encode_and_mask hwf (readAll_of_admits hc hos)
  have hx : (e.xlenRequirement == none || e.xlenRequirement == some c.xlen) = true := by
    rw [Opcode.available, Bool.and_eq_true] at ha
    exact ha.1
  have hcheck := List.all_eq_true.mp (sharesZextH_table c.xlen) e he.1
  rw [he.isAdded, hx, Bool.not_true, Bool.false_or, Bool.false_or, sharesZextH] at hcheck
  rw [matchWord_zextH]
  split at hcheck
  · next hname =>
    rw [Bool.and_eq_true, beq_iff_eq, beq_iff_eq] at hcheck
    rw [← hcheck.1, ← hcheck.2]
    exact iff_of_true hwe (.inl (beq_iff_eq.mp hname))
  · next hname =>
    rw [beq_iff_eq] at hname
    rw [ZextHWord, or_iff_right hname]
    split at hcheck
    · -- the words differ in the third register only
      next i hi =>
      simp only [Bool.and_eq_true, beq_iff_eq] at hcheck
      obtain ⟨⟨⟨hbits, hargs⟩, hmask⟩, hfree⟩ := hcheck
      have hget : os[i]? = some (Arg.decode (e.word os) .t) := by
        rw [← decode_word hc hwf hos, List.getElem?_map, decode_word hc hwf hos, hargs]
        rfl
      rw [← hbits, ← hmask, and_or_eq_iff hwe hfree, Field.and_footprint_eq_zero_iff, ← decode_t_iff]
      constructor
      · intro h
        exact ⟨i, hi, by rw [hget, h]⟩
      · intro h
        obtain ⟨j, hj, hreg⟩ := h
        obtain rfl : i = j := Option.some.inj (hi.symm.trans hj)
        exact Option.some.inj (hget.symm.trans hreg)
    · -- a bit that both fix parts them
      next hnone =>
      refine iff_of_false ?_ ?_
      · intro hz
        rw [not_conflicts hwe hz] at hcheck
        cases hcheck
      · intro h
        obtain ⟨i, hi, _⟩ := h
        rw [hnone] at hi
        cases hi

end SharedZextH

/-! The round trip. -/

section RoundTrip
variable {U : Type}

/-- What is asked of an entry with operands in range: it takes them and gives a word; its
    operands fill what the mask leaves, so other operands give another word; the word
    matches the entry; and the first entry that fits the word prints a line that
    assembles to the same word. -/
structure RoundTrips (c : Target) (fits : U → BitVec 32 → Bool) (table : List (U ⊕ Opcode)) (e : Opcode)
    (os : List Operand) : Prop where
  assembled : tryEntry c os e = (some (.word (e.word os)), false)
  disjoint : Disjoint e.fields
  free : cover e.fields &&& e.mask = 0#32
  total : cover e.fields ||| e.mask = BitVec.allOnes 32
  distinct : ∀ os', List.Forall₂ (Arg.Admits c.xlen) e.args os' → e.word os' = e.word os → os' = os
  matched : e.matchWord (e.word os) = true
  found : ∃ name line, disassembleAll c fits table (e.word os) = some (.inr (name, line)) ∧
    Accepts c opcodeTable name line (e.word os)

variable {c : Target} {fits : U → BitVec 32 → Bool} {table : List (U ⊕ Opcode)}
  (hc : c.NormalizesConstants) (hs : c.supports = pXbpXflush) (ht : Scanned c fits table) {e : Opcode}
  (he : e.Added) (hx : e.xlenRequirement = none ∨ e.xlenRequirement = some c.xlen) {os : List Operand}
  (hos : List.Forall₂ (Arg.Admits c.xlen) e.args os)

include hs he hx in
theorem available_of_added : e.available c = true := by
  have hcls : pXbpXflush e.insnClass = true := by
    have hadd := he.isAdded
    rw [Opcode.isAdded] at hadd
    split at hadd
    all_goals first | next h => rw [h]; rfl | cases hadd
  simpa [Opcode.available, hs, hcls] using hx

include hc hs ht he hx hos in
theorem roundTrips_of_not_zextH (hz : ¬ ZextHWord c.xlen e os) : RoundTrips c fits table e os := by
  have hp := he.not_insnMacro
  have ha := available_of_added hs he hx
  have hwf := wellFormed_of_mem he.mem hp
  have hm := matchWord_word hc he.mem hp hos
  refine ⟨tryEntry_of_admits hc hos hp hm, hwf.disjoint, hwf.free, hwf.total, ?_, hm, ?_⟩
  · intro os' hos' hword
    rw [← decode_word hc hwf hos', hword, decode_word hc hwf hos]
  · obtain ⟨f, hf, hdis⟩ := disassemble_eq_some (List.mem_append_right _ he.mem) ha hm
    have hname : f.name ≠ .zext_h := by
      intro hname
      have hfits := hf.fits
      rw [hf.eq_zextH hs hname] at hfits
      exact hz ((matchWord_zextH_iff hc he ha hos).mp hfits)
    refine ⟨f.name, printInsnArgs c.xlen f.args (e.word os), ?_, ?_⟩
    · rw [disassembleAll_eq ht he ha hm, hdis]
      rfl
    · exact hf.accepts hc hs hname (clear_word hc he.mem hp hos hs ha hf)

include hc hs ht he hx hos in
theorem not_roundTrips_of_zextH (hz : ZextHWord c.xlen e os) : ¬ RoundTrips c fits table e os := by
  intro h
  have ha := available_of_added hs he hx
  obtain ⟨name, line, hall, hacc⟩ := h.found
  obtain ⟨f, hf, hdis⟩ := disassemble_eq_some (List.mem_append_right _ he.mem) ha h.matched
  rw [hf.of_zextH hs ((matchWord_zextH_iff hc he ha hos).mpr hz)] at hdis
  rw [disassembleAll_eq ht he ha h.matched, hdis] at hall
  obtain ⟨rfl, rfl⟩ := Prod.mk.inj (Sum.inr.inj (Option.some.inj hall))
  have hname : (zextH c.xlen).name = .zext_h := by cases c.xlen <;> rfl
  have hargs : (zextH c.xlen).args = [.d, .s] := by cases c.xlen <;> rfl
  rw [hname, hargs, Accepts] at hacc
  cases (riscvIp_zextH hs _ _).symm.trans hacc

end RoundTrip

/-- An assembler for RV32 with p, xbp and xflush. -/
def rv32P : Target := { rv32All with supports := pXbpXflush }

theorem rv32P_normalizes : rv32P.NormalizesConstants where
  wide h := by cases h
  narrow _ n h₁ h₂ := if_pos ⟨h₁, h₂⟩
  beyond _ n h := if_neg (by omega)

/-- A table with one entry that is not modelled, `lui`, by its fixed bits. -/
def tableWithLui : List ((BitVec 32 × BitVec 32) ⊕ Opcode) :=
  .inl (0x37, 0x7f) :: opcodeTable.map .inr

def fitsBits (u : BitVec 32 × BitVec 32) (w : BitVec 32) : Bool := w &&& u.2 == u.1

theorem tableWithLui_scanned (c : Target) : Scanned c fitsBits tableWithLui where
  modelled := by
    rw [tableWithLui, List.filterMap_cons_none rfl, List.filterMap_map]
    exact List.filterMap_some
  others := by
    intro u hu e he _ w hw
    have hcheck : riscvOpcodes.all (fun e => !e.isAdded ||
        (e.mask &&& 0x7f#32 == 0x7f#32 && e.matchBits &&& 0x7f#32 != 0x37#32)) = true := by decide +kernel
    have h := List.all_eq_true.mp hcheck e he.mem
    simp only [he.isAdded, Bool.not_true, Bool.false_or, Bool.and_eq_true, beq_iff_eq, bne_iff_ne] at h
    obtain rfl : u = (0x37, 0x7f) := by simpa [tableWithLui] using hu
    rw [fitsBits, beq_eq_false_iff_ne]
    intro hlui
    -- the low seven bits of the word are fixed by the entry
    have hlow : w &&& 0x7f#32 = e.matchBits &&& 0x7f#32 := by
      rw [← (of_matchWord he.mem hw).2, BitVec.and_assoc, h.1]
    exact h.2 (hlow.symm.trans hlui)

end Binutils
