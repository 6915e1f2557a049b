import Mathlib.Data.List.TakeWhile
import RiscvToolchain.Binutils.Table

/- `riscv_ip` of the assembler and the printing half of the disassembler, on the operands
   of the added entries.

   Correspondence (binutils ↔ Lean):
     `xlen`, `riscv_multi_subset_supports`  ↔ `Target.xlen`, `Target.supports`
     `check_absolute_expr`                  ↔ `Target.absolute`, `Target.absoluteExpr`
     an operand of the source line          ↔ `Operand`
     one case of the operand switch         ↔ `Arg.read`, `Arg.improper` for its `as_bad`
     the operand loop                       ↔ `operands`
     `match_func`                           ↔ `Opcode.matchWord`
     one round of the entry loop            ↔ `tryEntry`
     `str_hash_find` and the entry loop     ↔ `candidates`, `riscvIp`
     `print_insn_args`                      ↔ `Arg.print`, `printInsnArgs`
     `riscv_disassemble_insn`               ↔ `disassemble`
   `check_absolute_expr` is not part of the patches: what it leaves in `X_add_number` is a
   parameter. `as_bad` reports an error and lets the loop go on, so a complaint about an
   entry that turns out not to fit stays: the second component of a result says whether
   there was one. -/
namespace Binutils
open Semantics

/-- What the assembler is set up for. -/
structure Target where
  xlen : Xlen
  supports : InsnClass → Bool
  absolute : BitVec 64 → BitVec 64

/-- An assembler for RV32 with every class supported, and what `normalize_constant_expr`
    does to a number there. -/
def rv32All : Target where
  xlen := .rv32
  supports := fun _ => true
  absolute := fun n =>
    if -2 ^ 32 ≤ n.toInt ∧ n.toInt < 2 ^ 32 then (n.setWidth 32).signExtend 64 else n

/-- An operand of a source line: a register, an absolute expression (its `X_add_number`),
    or any other text, which the expression parser takes for a symbol. -/
inductive Operand
  | reg (r : BitVec 5)
  | imm (n : BitVec 64)
  | text
deriving DecidableEq

/-- `X_add_number` after `check_absolute_expr`, and whether that complained. A register
    name is a symbol here, of value 0. -/
def Target.absoluteExpr (c : Target) : Operand → BitVec 64 × Bool
  | .imm n => (c.absolute n, false)
  | _ => (0#64, true)

/-- "improper shift amount". -/
def Arg.improper (xlen : Xlen) : Arg → BitVec 64 → Bool
  | .shamtw, x => decide (31 < x.toNat)
  | .shamt, x => decide (xlen.bits ≤ x.toNat)
  -- the bound of case 'i' is 1 << ((1 << k) - 1), and 1 << (xlen / 8) for 'ib'
  | .i3, x => decide (((1 <<< ((1 <<< 3) - 1) : Nat) : Int) ≤ x.toInt)
  | .i4, x => decide (((1 <<< ((1 <<< 4) - 1) : Nat) : Int) ≤ x.toInt)
  | .ib, x => decide (((1 <<< (xlen.bits / 8) : Nat) : Int) ≤ x.toInt)
  | _, _ => false

def Arg.isPair : Arg → Bool
  | .pairD | .pairS | .pairT => true
  | _ => false

/-- The operands of the case '+', 'd', 's', 'v', 't', 'r' of the switch. -/
def Arg.isReg : Arg → Bool
  | .d | .s | .t | .r | .v | .pairD | .pairS | .pairT => true
  | _ => false

/-- The value an operand writes and whether it was complained about, `none` when it is not
    the register that the operand string asks for. -/
def Arg.read (c : Target) (a : Arg) (o : Operand) : Option (BitVec 32 × Bool) :=
  if a.isReg then
    match o with
    -- "odd base for even-odd operand"
    | .reg regno => some (regno.setWidth 32, a.isPair && c.xlen == .rv32 && regno.getLsbD 0)
    | _ => none
  else
    let x := (c.absoluteExpr o).1
    some (x.setWidth 32, (c.absoluteExpr o).2 || a.improper c.xlen x)

/-- `INSERT_OPERAND` into each field of the operand. -/
def Arg.stores (a : Arg) (v : BitVec 32) : List (Field 32 × BitVec 32) := a.fields.map fun f => (f, v)

def operands (c : Target) : List Arg → List Operand → BitVec 32 → Option (BitVec 32) × Bool
  | [], [], w => (some w, false)
  | a :: as, o :: os, w =>
    match a.read c o with
    | none => (none, false)
    | some (v, bad) =>
      let rest := operands c as os (insertAll (a.stores v) w)
      (rest.1, bad || rest.2)
  | _, _, _ => (none, false)

def Opcode.matchWord (e : Opcode) (w : BitVec 32) : Bool :=
  match e.matchFunc with
  | .opcode => (w ^^^ e.matchBits) &&& e.mask == 0#32
  | .rs1EqRs2 => opRs1.extract w == opRs2.extract w && (w ^^^ e.matchBits) &&& e.mask == 0#32
  | .never => false

/-- What a line assembles to: a word, or the expansion of a pseudo instruction. -/
inductive Assembled
  | word (w : BitVec 32)
  | expansion
deriving DecidableEq

def tryEntry (c : Target) (os : List Operand) (e : Opcode) : Option Assembled × Bool :=
  match operands c e.args os e.matchBits with
  | (none, bad) => (none, bad)
  | (some w, bad) =>
    if e.pinfo = .insnMacro then (some .expansion, bad)
    else if e.matchWord w then (some (.word w), bad)
    else (none, bad)

/-- An entry is passed over when it is for the other xlen or its class is not supported. -/
def Opcode.available (c : Target) (e : Opcode) : Bool :=
  (e.xlenRequirement == none || e.xlenRequirement == some c.xlen) && c.supports e.insnClass

def tryEntries (c : Target) (os : List Operand) : List Opcode → Option Assembled × Bool
  | [] => (none, false)
  | e :: es =>
    if e.available c then
      match tryEntry c os e with
      | (some r, bad) => (some r, bad)
      | (none, bad) => ((tryEntries c os es).1, bad || (tryEntries c os es).2)
    else tryEntries c os es

/-- The first entry of the name and those that follow it with the same name. -/
def candidates (table : List Opcode) (name : Mnemonic) : List Opcode :=
  (table.dropWhile fun e => e.name != name).takeWhile fun e => e.name == name

def riscvIp (c : Target) (table : List Opcode) (name : Mnemonic) (os : List Operand) :
    Option Assembled × Bool :=
  tryEntries c os (candidates table name)

/-- The line assembles to `w`, without a complaint. -/
def Accepts (c : Target) (table : List Opcode) (name : Mnemonic) (os : List Operand)
    (w : BitVec 32) : Prop :=
  riscvIp c table name os = (some (.word w), false)

instance (c : Target) (table : List Opcode) (name : Mnemonic) (os : List Operand) (w : BitVec 32) :
    Decidable (Accepts c table name os w) :=
  inferInstanceAs (Decidable (_ = _))

/-! The disassembler. -/

/-- The mask of case 'i' is xlen / 8 - 1 for 'ib', not the one the assembler writes with. -/
def printImm (xlen : Xlen) (a : Arg) (w : BitVec 32) : BitVec 32 :=
  (w >>> 20) &&& match a with
    | .ib => BitVec.ofNat 32 (xlen.bits / 8 - 1)
    | .i3 => BitVec.ofNat 32 ((1 <<< 3) - 1)
    | _ => BitVec.ofNat 32 ((1 <<< 4) - 1)

def Arg.print (xlen : Xlen) (w : BitVec 32) : Arg → Operand
  | .d | .pairD => .reg ((opRd.extract w).setWidth 5)
  | .s | .pairS => .reg ((opRs1.extract w).setWidth 5)
  | .t | .pairT => .reg ((opRs2.extract w).setWidth 5)
  | .r => .reg ((opRs3.extract w).setWidth 5)
  -- case 'v' falls through to 't': the names of both registers, with nothing between them
  | .v => .text
  | .shamt => .imm ((opShamt.extract w).setWidth 64)
  | .shamtw => .imm ((opShamtw.extract w).setWidth 64)
  | .i3 => .imm ((printImm xlen .i3 w).setWidth 64)
  | .i4 => .imm ((printImm xlen .i4 w).setWidth 64)
  | .ib => .imm ((printImm xlen .ib w).setWidth 64)

def printInsnArgs (xlen : Xlen) (args : List Arg) (w : BitVec 32) : List Operand :=
  args.map (Arg.print xlen w)

/-- The first entry that matches the word and is available. -/
def disassemble (c : Target) (table : List Opcode) (w : BitVec 32) :
    Option (Mnemonic × List Operand) :=
  (table.find? fun e => e.matchWord w && e.available c).map fun e =>
    (e.name, printInsnArgs c.xlen e.args w)

/-! What the operand loop writes. -/

section Operands
variable {c : Target}

theorem read_reg {a : Arg} (ha : a.isReg = true) (regno : BitVec 5) : a.read c (.reg regno) =
    some (regno.setWidth 32, a.isPair && c.xlen == .rv32 && regno.getLsbD 0) :=
  if_pos ha

theorem read_imm {a : Arg} (ha : a.isReg = false) (n : BitVec 64) : a.read c (.imm n) =
    some ((c.absolute n).setWidth 32, a.improper c.xlen (c.absolute n)) :=
  if_neg (by rw [ha]; decide)

/-- The values of all operands of a line, when each has the form asked for. -/
def readAll (c : Target) : List Arg → List Operand → Option (List (BitVec 32 × Bool))
  | [], [] => some []
  | a :: as, o :: os =>
    match a.read c o, readAll c as os with
    | some v, some vs => some (v :: vs)
    | _, _ => none
  | _, _ => none

def storesAll : List Arg → List (BitVec 32 × Bool) → List (Field 32 × BitVec 32)
  | a :: as, v :: vs => a.stores v.1 ++ storesAll as vs
  | _, _ => []

theorem readAll_cons {a : Arg} {as : List Arg} {o : Operand} {os : List Operand}
    {vs : List (BitVec 32 × Bool)} (h : readAll c (a :: as) (o :: os) = some vs) :
    ∃ v vs', a.read c o = some v ∧ readAll c as os = some vs' ∧ vs = v :: vs' := by
  rw [readAll] at h
  split at h
  · next v vs' hv hvs => exact ⟨v, vs', hv, hvs, (Option.some.inj h).symm⟩
  · cases h

theorem operands_eq {as : List Arg} {os : List Operand} {vs : List (BitVec 32 × Bool)}
    (h : readAll c as os = some vs) (w : BitVec 32) :
    operands c as os w = (some (insertAll (storesAll as vs) w), vs.any Prod.snd) := by
  induction as generalizing os vs w with
  | nil =>
    cases os with
    | nil =>
      obtain rfl : [] = vs := Option.some.inj h
      rfl
    | cons o os => cases h
  | cons a as ih =>
    cases os with
    | nil => cases h
    | cons o os =>
      obtain ⟨v, vs', hv, hvs, rfl⟩ := readAll_cons h
      rw [operands, hv]
      simp only [ih hvs, storesAll, insertAll_append, List.any_cons]

theorem operands_eq_none {as : List Arg} {os : List Operand} (h : readAll c as os = none)
    (w : BitVec 32) : (operands c as os w).1 = none := by
  induction as generalizing os w with
  | nil =>
    cases os with
    | nil => cases h
    | cons o os => rfl
  | cons a as ih =>
    cases os with
    | nil => rfl
    | cons o os =>
      rw [operands]
      cases hv : a.read c o with
      | none => rfl
      | some v =>
        cases hvs : readAll c as os with
        | none => exact ih hvs _
        | some vs => simp [readAll, hv, hvs] at h

theorem map_fst_storesAll {as : List Arg} {os : List Operand} {vs : List (BitVec 32 × Bool)}
    (h : readAll c as os = some vs) : (storesAll as vs).map Prod.fst = as.flatMap Arg.fields := by
  induction as generalizing os vs with
  | nil => rfl
  | cons a as ih =>
    cases os with
    | nil => cases h
    | cons o os =>
      obtain ⟨v, vs', hv, hvs, rfl⟩ := readAll_cons h
      have ha : (a.stores v.1).map Prod.fst = a.fields := by simp [Arg.stores, Function.comp_def]
      rw [storesAll, List.map_append, ih hvs, ha, List.flatMap_cons]

/-- Every operand of the string was read from an operand of the line, and its fields hold
    what was read. -/
theorem mem_storesAll {as : List Arg} {os : List Operand} {vs : List (BitVec 32 × Bool)}
    (h : readAll c as os = some vs) {a : Arg} (ha : a ∈ as) :
    ∃ o ∈ os, ∃ v ∈ vs, a.read c o = some v ∧ ∀ f ∈ a.fields, (f, v.1) ∈ storesAll as vs := by
  induction as generalizing os vs with
  | nil => cases ha
  | cons b as ih =>
    cases os with
    | nil => cases h
    | cons o os =>
      obtain ⟨v, vs', hv, hvs, rfl⟩ := readAll_cons h
      cases ha with
      | head =>
        refine ⟨o, by simp, v, by simp, hv, fun f hf => ?_⟩
        exact List.mem_append_left _ (List.mem_map.mpr ⟨f, hf, rfl⟩)
      | tail _ ha =>
        obtain ⟨o', ho', v', hv', hr, hs⟩ := ih hvs ha
        exact ⟨o', by simp [ho'], v', by simp [hv'], hr, fun f hf => List.mem_append_right _ (hs f hf)⟩

end Operands

/-! Entries whose operands fill the word. -/

theorem getLsbD_zero_iff {n : Nat} (x : BitVec n) : x.getLsbD 0 = false ↔ x.toNat % 2 = 0 := by
  rw [← BitVec.testBit_toNat, Nat.testBit_zero]
  simp

/-- The fields of the operands do not overlap, and the bits they leave are those of the
    mask. `validate_riscv_insn` checks the second half when the assembler starts. -/
structure Opcode.WellFormed (e : Opcode) : Prop where
  disjoint : Disjoint e.fields
  free : cover e.fields &&& e.mask = 0#32
  total : cover e.fields ||| e.mask = BitVec.allOnes 32
  inMask : e.matchBits &&& e.mask = e.matchBits

instance (e : Opcode) : Decidable e.WellFormed :=
  decidable_of_iff (Disjoint e.fields ∧ cover e.fields &&& e.mask = 0#32 ∧
      cover e.fields ||| e.mask = BitVec.allOnes 32 ∧ e.matchBits &&& e.mask = e.matchBits)
    ⟨fun ⟨h₁, h₂, h₃, h₄⟩ => ⟨h₁, h₂, h₃, h₄⟩, fun h => ⟨h.disjoint, h.free, h.total, h.inMask⟩⟩

section Entries
variable {c : Target} {e : Opcode} {os : List Operand} {vs : List (BitVec 32 × Bool)}

/-- The word that an entry assembles to. -/
def Opcode.encode (e : Opcode) (vs : List (BitVec 32 × Bool)) : BitVec 32 :=
  insertAll (storesAll e.args vs) e.matchBits

theorem encode_and_mask (hwf : e.WellFormed) (h : readAll c e.args os = some vs) :
    e.encode vs &&& e.mask = e.matchBits := by
  have hfree : cover ((storesAll e.args vs).map Prod.fst) &&& e.mask = 0#32 := by
    rw [map_fst_storesAll h]
    exact hwf.free
  rw [Opcode.encode, insertAll_and _ _ _ hfree, hwf.inMask]

/-- The fields of the word hold what was read for them. -/
theorem extract_encode (hwf : e.WellFormed) (h : readAll c e.args os = some vs) {f : Field 32}
    {v : BitVec 32} (hf : (f, v) ∈ storesAll e.args vs) : f.extract (e.encode vs) = v &&& f.mask := by
  apply extract_insertAll _ hf
  rw [map_fst_storesAll h]
  exact hwf.disjoint

theorem matchOpcode_iff {w m k : BitVec 32} (hm : m &&& k = m) :
    ((w ^^^ m) &&& k == 0#32) = true ↔ w &&& k = m := by
  rw [beq_iff_eq, xor_and_distrib, hm, BitVec.xor_eq_zero_iff]

/-- What an accepted line comes from. -/
theorem tryEntry_word {w : BitVec 32} {bad : Bool} (h : tryEntry c os e = (some (.word w), bad)) :
    e.pinfo ≠ .insnMacro ∧ e.matchWord w = true ∧
      ∃ vs, readAll c e.args os = some vs ∧ w = e.encode vs ∧ bad = vs.any Prod.snd := by
  cases hr : readAll c e.args os with
  | none =>
    have hn := operands_eq_none hr e.matchBits
    rw [tryEntry] at h
    split at h
    · cases h
    · next hs => simp [hs] at hn
  | some vs =>
    rw [tryEntry, operands_eq hr] at h
    dsimp only at h
    split at h
    · cases h
    · next hp =>
      split at h
      · next hm =>
        cases h
        exact ⟨hp, hm, vs, rfl, rfl, rfl⟩
      · cases h

theorem tryEntries_word {es : List Opcode} {w : BitVec 32}
    (h : tryEntries c os es = (some (.word w), false)) :
    ∃ e ∈ es, e.available c = true ∧ tryEntry c os e = (some (.word w), false) := by
  induction es with
  | nil => cases h
  | cons e es ih =>
    rw [tryEntries] at h
    split at h
    · next ha =>
      split at h
      · next ht =>
        cases h
        exact ⟨e, by simp, ha, ht⟩
      · next ht =>
        -- a later entry was taken: its own round complained about nothing either
        obtain ⟨hr, hb⟩ := Prod.mk.inj h
        rw [Bool.or_eq_false_iff] at hb
        obtain ⟨e', he', h'⟩ := ih (Prod.ext hr hb.2)
        exact ⟨e', by simp [he'], h'⟩
    · obtain ⟨e', he', h'⟩ := ih h
      exact ⟨e', by simp [he'], h'⟩

theorem mem_candidates {table : List Opcode} {name : Mnemonic} (h : e ∈ candidates table name) :
    e ∈ table ∧ e.name = name := by
  have hname := List.mem_takeWhile_imp h
  exact ⟨(List.dropWhile_sublist _).subset ((List.takeWhile_sublist _).subset h), by simpa using hname⟩

theorem Accepts.entry {table : List Opcode} {name : Mnemonic} {w : BitVec 32}
    (h : Accepts c table name os w) :
    ∃ e ∈ table, e.name = name ∧ e.available c = true ∧ e.pinfo ≠ .insnMacro ∧
      e.matchWord w = true ∧ ∃ vs, readAll c e.args os = some vs ∧ w = e.encode vs ∧
        vs.any Prod.snd = false := by
  obtain ⟨e, he, ha, ht⟩ := tryEntries_word h
  obtain ⟨hmem, hname⟩ := mem_candidates he
  obtain ⟨hp, hm, vs, hr, hw, hb⟩ := tryEntry_word ht
  exact ⟨e, hmem, hname, ha, hp, hm, vs, hr, hw, hb.symm⟩

/-- The one entry of its name decides alone. -/
theorem riscvIp_of_alone {table : List Opcode} (hc : candidates table e.name = [e])
    (ha : e.available c = true) (hp : e.pinfo ≠ .insnMacro) (hr : readAll c e.args os = some vs)
    (hm : e.matchWord (e.encode vs) = true) :
    riscvIp c table e.name os = (some (.word (e.encode vs)), vs.any Prod.snd) := by
  have ht : tryEntry c os e = (some (.word (e.encode vs)), vs.any Prod.snd) := by
    rw [tryEntry, operands_eq hr]
    exact (if_neg hp).trans (if_pos hm)
  rw [riscvIp, hc, tryEntries, if_pos ha, ht]

end Entries

/-- A pseudo instruction has no word of its own. -/
theorem wellFormed_of_mem {e : Opcode} (he : e ∈ riscvOpcodes) (hp : e.pinfo ≠ .insnMacro) :
    e.WellFormed := by
  have h : riscvOpcodes.all (fun e => decide (e.pinfo ≠ .insnMacro → e.WellFormed)) = true := by
    decide +kernel
  exact of_decide_eq_true (List.all_eq_true.mp h e he) hp

/-- An entry that matches a word is no pseudo instruction, and the word has its fixed bits. -/
theorem of_matchWord {e : Opcode} (he : e ∈ riscvOpcodes) {w : BitVec 32} (h : e.matchWord w = true) :
    e.pinfo ≠ .insnMacro ∧ w &&& e.mask = e.matchBits := by
  have hnever : riscvOpcodes.all (fun e => decide (e.pinfo = .insnMacro → e.matchFunc = .never)) = true := by
    decide +kernel
  have hp : e.pinfo ≠ .insnMacro := by
    intro hp
    have hm := of_decide_eq_true (List.all_eq_true.mp hnever e he) hp
    simp [Opcode.matchWord, hm] at h
  refine ⟨hp, (matchOpcode_iff (wellFormed_of_mem he hp).inMask).mp ?_⟩
  rw [Opcode.matchWord] at h
  split at h
  · exact h
  · exact (Bool.and_eq_true _ _ ▸ h).2
  · cases h

end Binutils
