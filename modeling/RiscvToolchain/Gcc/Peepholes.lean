import RiscvToolchain.Gcc.HiValue

/- The three CRC peepholes of the final `cloudbear.md`, as transformations of the
   registers: the matched sequence and its replacement, run from one register file.

   Correspondence (machine description ↔ Lean):
     `Main CRC pattern for zicond`   ↔ `zicondMatched`, `zicondReplacement`
     `Main CRC pattern for SFB`      ↔ `sfbMatched`, `sfbReplacement`
     `Second CRC variant`            ↔ `secondMatched`, `secondReplacement`
     `*cb_<optab><mode>3`            ↔ the value of `Src.unspecCrc`, that of the xor
   The checked condition is taken for what it says, a register below 2^16; that the
   check finds only such registers is `HiValue`. Each sequence is a list of SETs, so
   a run has exactly one result (`Runs`), and the two results are compared on every
   register but the scratch (`LeaveSame`). -/
namespace Gcc
open Semantics

section Windows
variable (op0 op1 op2 op3 op4 op5 op6 op7 : RegNo) (op8 : Nat)

def zicondMatched : List Pattern :=
  [set op0 (.ifThenElse .eq op1 .zero (.reg op2)),
    set op0 (.xor op0 op3),
    set op0 (.zeroExtendHI (.reg op4))]

def zicondReplacement : List Pattern :=
  [set op5 (.zeroExtendHI (.reg op2)),
    set op0 (.ifThenElse .eq op1 .zero (.reg op5)),
    set op0 (.unspecCrc op0 op3)]

def sfbMatched : List Pattern :=
  [set op0 (.ifThenElse .ne op1 (.reg op0) .zero),
    set op0 (.xor op0 op2),
    set op0 (.zeroExtendHI (.reg op3))]

def sfbReplacement : List Pattern :=
  [set op4 (.zeroExtendHI (.reg op0)),
    set op4 (.ifThenElse .ne op1 (.reg op4) .zero),
    set op0 (.unspecCrc op4 op2)]

def secondMatched : List Pattern :=
  [set op0 (.ifThenElse .eq op1 .zero (.reg op2)),
    set op6 (.zeroExtendLshiftrt (.reg op7) (.const op8)),
    set op0 (.xor op0 op3),
    set op0 (.zeroExtendHI (.reg op4))]

-- the arms of the select stand as they do in the pattern: the later hunk that swaps
-- those of the zicond pattern leaves this one alone
def secondReplacement : List Pattern :=
  [set op5 (.zeroExtendHI (.reg op2)),
    set op6 (.zeroExtendLshiftrt (.reg op7) (.const op8)),
    set op0 (.ifThenElse .eq op1 (.reg op5) .zero),
    set op0 (.unspecCrc op0 op3)]

end Windows

/-! Runs of a list of SETs. -/

section Runs
variable {W : Nat}

/-- From `ρ` the list runs, and only to `σ`. -/
def Runs (l : List Pattern) (ρ σ : RegFile W) : Prop :=
  ∀ ρ', Exec (l.map Insn.insn) ρ ρ' ↔ ρ' = σ

/-- Both lists run from `ρ`, to register files that agree on every register but the scratch. -/
def LeaveSame (scratch : RegNo) (l m : List Pattern) (ρ : RegFile W) : Prop :=
  ∃ σ τ, Runs l ρ σ ∧ Runs m ρ τ ∧ ∀ r, r ≠ scratch → σ r = τ r

theorem leaveSame_iff {scratch : RegNo} {l m : List Pattern} {ρ σ τ : RegFile W}
    (hl : Runs l ρ σ) (hm : Runs m ρ τ) :
    LeaveSame scratch l m ρ ↔ ∀ r, r ≠ scratch → σ r = τ r := by
  constructor
  · intro ⟨σ', τ', hl', hm', h⟩
    obtain rfl : σ = σ' := (hl' σ).mp ((hl σ).mpr rfl)
    obtain rfl : τ = τ' := (hm' τ).mp ((hm τ).mpr rfl)
    exact h
  · intro h
    exact ⟨σ, τ, hl, hm, h⟩

theorem forall_ne_iff {σ τ : RegFile W} {dest scratch : RegNo} (hne : dest ≠ scratch)
    (hrest : ∀ r, r ≠ dest → r ≠ scratch → σ r = τ r) :
    (∀ r, r ≠ scratch → σ r = τ r) ↔ σ dest = τ dest := by
  constructor
  · intro h
    exact h dest hne
  · intro h r hr
    by_cases hd : r = dest
    · rw [hd, h]
    · exact hrest r hd hr

theorem Runs.nil (ρ : RegFile W) : Runs [] ρ ρ := by
  intro ρ'
  constructor
  · intro h
    cases h
    rfl
  · intro heq
    subst heq
    exact .nil _

theorem step_set_iff {ρ ρ' : RegFile W} {r : RegNo} {s : Src} {v : BitVec W}
    (hs : ∀ u, s.Evals ρ u ↔ u = v) :
    (Insn.insn (set r s)).Step ρ ρ' ↔ ρ' = Function.update ρ r v := by
  constructor
  · intro ⟨u, hu, h⟩
    obtain rfl := (hs u).mp hu
    funext q
    rw [h q List.not_mem_nil, Function.update_apply]
    show (if Dest.reg r = Dest.reg q then u else ρ q) = if q = r then u else ρ q
    simp only [Dest.reg.injEq, eq_comm]
  · intro heq
    subst heq
    exact step_set ((hs v).mpr rfl)

theorem Runs.set {ρ σ : RegFile W} {r : RegNo} {s : Src} {v : BitVec W} {l : List Pattern}
    (hs : ∀ u, s.Evals ρ u ↔ u = v) (hl : Runs l (Function.update ρ r v) σ) :
    Runs (Gcc.set r s :: l) ρ σ := by
  intro ρ'
  rw [← hl ρ', List.map_cons]
  constructor
  · intro h
    cases h with
    | cons hi hr =>
      rw [step_set_iff hs] at hi
      rw [← hi]
      exact hr
  · intro h
    exact .cons ((step_set_iff hs).mpr rfl) h

/-! The values of the sources. -/

/-- `zero_extend:X` of the low half of a register. -/
def zext16 (x : BitVec W) : BitVec W := (x.setWidth 16).setWidth W

/-- `zero_extend:DI` of the low word, shifted right. -/
def zextShift (x : BitVec W) (n : Nat) : BitVec W := (x.setWidth 32 >>> n).setWidth W

theorem evals_zeroExtendHI (ρ : RegFile W) (r : RegNo) (u : BitVec W) :
    (Src.zeroExtendHI (.reg r)).Evals ρ u ↔ u = zext16 (ρ r) := by
  simp [Src.Evals, Operand.Evals, zext16]

theorem evals_zeroExtendLshiftrt (ρ : RegFile W) (r : RegNo) {n : Nat} (hn : n < 32)
    (u : BitVec W) :
    (Src.zeroExtendLshiftrt (.reg r) (.const n)).Evals ρ u ↔ u = zextShift (ρ r) n := by
  simp [Src.Evals, Operand.Evals, ShiftCount.value, zextShift, hn]

theorem evals_ifThenElse (ρ : RegFile W) (c : Cmp) (r : RegNo) (a b : Arm) (u : BitVec W) :
    (Src.ifThenElse c r a b).Evals ρ u ↔ u = if c.holds (ρ r) then a.value ρ else b.value ρ :=
  Iff.rfl

theorem evals_xor (ρ : RegFile W) (x y : RegNo) (u : BitVec W) :
    (Src.xor x y).Evals ρ u ↔ u = ρ x ^^^ ρ y :=
  Iff.rfl

theorem evals_unspecCrc (ρ : RegFile W) (x y : RegNo) (u : BitVec W) :
    (Src.unspecCrc x y).Evals ρ u ↔ u = ρ x ^^^ ρ y :=
  Iff.rfl

@[simp] theorem zext16_zero : zext16 0#W = 0#W := by
  simp [zext16]

theorem zext16_xor (x y : BitVec W) : zext16 (x ^^^ y) = zext16 x ^^^ zext16 y := by
  simp [zext16, BitVec.setWidth_xor]

theorem zext16_of_lt {x : BitVec W} (h : x.toNat < 2 ^ 16) : zext16 x = x := by
  apply BitVec.eq_of_toNat_eq
  rw [zext16, BitVec.toNat_setWidth, BitVec.toNat_setWidth, Nat.mod_eq_of_lt h]
  exact Nat.mod_eq_of_lt x.isLt

theorem toNat_zextShift {x : BitVec W} (h : x.toNat < 2 ^ 16) (n : Nat) :
    (zextShift x n).toNat = x.toNat >>> n := by
  rw [zextShift, BitVec.toNat_setWidth, BitVec.toNat_ushiftRight, BitVec.toNat_setWidth,
    Nat.mod_eq_of_lt (show x.toNat < 2 ^ 32 by omega)]
  exact Nat.mod_eq_of_lt (Nat.lt_of_le_of_lt (Nat.shiftRight_le _ _) x.isLt)

end Runs

/-! What the peepholes preserve. -/

section Preservation
variable {W : Nat} {op0 op1 op2 op3 op4 op5 op6 op7 : RegNo} {op8 : Nat}

/-- Both sequences write no register but the destination and the scratch. -/
theorem zicond_leaveSame_iff (ρ : RegFile W) (hscratch : op5 ∉ [op0, op1, op2, op3]) :
    LeaveSame op5 (zicondMatched op0 op1 op2 op3 op0) (zicondReplacement op0 op1 op2 op3 op5) ρ ↔
      (op3 ≠ op0 → zext16 ((if ρ op1 = 0 then 0 else ρ op2) ^^^ ρ op3) =
        (if ρ op1 = 0 then 0 else zext16 (ρ op2)) ^^^ ρ op3) := by
  simp only [List.mem_cons, List.not_mem_nil, or_false, not_or] at hscratch
  obtain ⟨h0, h1, h2, h3⟩ := hscratch
  have hm := Runs.set (r := op0) (evals_ifThenElse ρ .eq op1 .zero (.reg op2))
    (.set (r := op0) (evals_xor _ op0 op3) (.set (r := op0) (evals_zeroExtendHI _ op0) (.nil _)))
  have hr := Runs.set (r := op5) (evals_zeroExtendHI ρ op2)
    (.set (r := op0) (evals_ifThenElse _ .eq op1 .zero (.reg op5))
      (.set (r := op0) (evals_unspecCrc _ op0 op3) (.nil _)))
  refine (leaveSame_iff hm hr).trans ((forall_ne_iff (Ne.symm h0) ?_).trans ?_)
  · intro r hr0 hr5
    simp [Function.update_apply, hr0, hr5]
  · by_cases h30 : op3 = op0
    · subst h30
      simp
    · simp [h30, Arm.value, Cmp.holds, Ne.symm h1, Ne.symm h3]

/-- The zero-extension moves from the end of the chain to the one select input that may be
    wide, since the operand of the xor is below 2^16. When that operand is the destination, both
    sequences xor it with itself. -/
theorem zicond_preserves (ρ : RegFile W) (h04 : op0 = op4) (h3 : (ρ op3).toNat < 2 ^ 16)
    (hscratch : op5 ∉ [op0, op1, op2, op3, op4]) :
    LeaveSame op5 (zicondMatched op0 op1 op2 op3 op4) (zicondReplacement op0 op1 op2 op3 op5) ρ := by
  subst h04
  have hscratch : op5 ∉ [op0, op1, op2, op3] := fun h => hscratch (List.mem_append_left [op0] h)
  apply (zicond_leaveSame_iff ρ hscratch).mpr
  intro _
  rw [zext16_xor, zext16_of_lt h3]
  by_cases h1 : ρ op1 = 0#W
  · simp [h1]
  · simp [h1]

theorem zicond_preserves_distinct :
    LeaveSame 14 (zicondMatched 10 11 12 13 10) (zicondReplacement 10 11 12 13 14)
      (fun r => if r = 12 then 0x1ffff else 1 : RegFile 32) :=
  zicond_preserves _ rfl (by decide) (by decide)

theorem sfb_leaveSame_iff (ρ : RegFile W) (hscratch : op4 ∉ [op0, op1, op2]) :
    LeaveSame op4 (sfbMatched op0 op1 op2 op0) (sfbReplacement op0 op1 op2 op4) ρ ↔
      (if op2 = op0 then 0 else zext16 ((if ρ op1 = 0 then 0 else ρ op0) ^^^ ρ op2)) =
        (if ρ op1 = 0 then 0 else zext16 (ρ op0)) ^^^ ρ op2 := by
  simp only [List.mem_cons, List.not_mem_nil, or_false, not_or] at hscratch
  obtain ⟨h0, h1, h2⟩ := hscratch
  have hm := Runs.set (r := op0) (evals_ifThenElse ρ .ne op1 (.reg op0) .zero)
    (.set (r := op0) (evals_xor _ op0 op2) (.set (r := op0) (evals_zeroExtendHI _ op0) (.nil _)))
  have hr := Runs.set (r := op4) (evals_zeroExtendHI ρ op0)
    (.set (r := op4) (evals_ifThenElse _ .ne op1 (.reg op4) .zero)
      (.set (r := op0) (evals_unspecCrc _ op4 op2) (.nil _)))
  refine (leaveSame_iff hm hr).trans ((forall_ne_iff (Ne.symm h0) ?_).trans ?_)
  · intro r hr0 hr4
    simp [Function.update_apply, hr0, hr4]
  · by_cases h20 : op2 = op0
    · subst h20
      simp [Arm.value, Cmp.holds, Ne.symm h1, Ne.symm h2]
    · simp [h20, Arm.value, Cmp.holds, Ne.symm h1, Ne.symm h2]

/-- As long as the operand of the xor is not the destination, the select may work on the scratch.
    When it is, the matched sequence ends in 0, while the replacement xors the selected value with
    the old one, which the select has not overwritten. -/
theorem sfb_preserves_iff (ρ : RegFile W) (h03 : op0 = op3) (h2 : (ρ op2).toNat < 2 ^ 16)
    (hscratch : op4 ∉ [op0, op1, op2, op3]) :
    LeaveSame op4 (sfbMatched op0 op1 op2 op3) (sfbReplacement op0 op1 op2 op4) ρ ↔
      op2 ≠ op0 ∨ ρ op1 ≠ 0 ∨ ρ op2 = 0 := by
  subst h03
  have hscratch : op4 ∉ [op0, op1, op2] := fun h => hscratch (List.mem_append_left [op0] h)
  refine (sfb_leaveSame_iff ρ hscratch).trans ?_
  have hz : zext16 (ρ op2) = ρ op2 := zext16_of_lt h2
  by_cases h20 : op2 = op0
  · subst h20
    by_cases h1 : ρ op1 = 0#W
    · simp [h1, eq_comm (a := 0#W)]
    · simp [h1, hz]
  · rw [if_neg h20, zext16_xor, hz]
    by_cases h1 : ρ op1 = 0#W
    · simp [h1, h20]
    · simp [h1]

theorem sfb_preserves_distinct :
    LeaveSame 13 (sfbMatched 10 11 12 10) (sfbReplacement 10 11 12 13)
      (fun r => if r = 10 then 0x1ffff else 1 : RegFile 32) :=
  (sfb_preserves_iff _ rfl (by decide) (by decide)).mpr (by decide)

/-- `r := r xor r` after a zero-extension of `r`: the check accepts it, and where the select
    gives 0 the replacement leaves the old value. -/
theorem not_sfb_preserves :
    checkRegHoldsHiValue [.insn (set 10 (.zeroExtendHI (.reg 13)))] 10 = some true ∧
      ¬ LeaveSame 12 (sfbMatched 10 11 10 10) (sfbReplacement 10 11 10 12)
        (fun r => if r = 11 then 0 else 1 : RegFile 32) := by
  refine ⟨by decide, ?_⟩
  rw [sfb_leaveSame_iff _ (by decide)]
  decide

theorem second_leaveSame_iff (ρ : RegFile 64) (h06 : op0 ≠ op6)
    (h8 : op8 < 32) (hscratch : op5 ∉ [op0, op1, op2, op6]) :
    LeaveSame op5 (secondMatched op0 op1 op2 op6 op0 op6 op6 op8)
        (secondReplacement op0 op1 op2 op6 op5 op6 op6 op8) ρ ↔
      zext16 ((if ρ op1 = 0 then 0 else ρ op2) ^^^ zextShift (ρ op6) op8) =
        (if (if op1 = op6 then zextShift (ρ op6) op8 else ρ op1) = 0 then zext16 (ρ op2) else 0) ^^^
          zextShift (ρ op6) op8 := by
  simp only [List.mem_cons, List.not_mem_nil, or_false, not_or] at hscratch
  obtain ⟨h0, h1, h2, h6⟩ := hscratch
  have hm := Runs.set (r := op0) (evals_ifThenElse ρ .eq op1 .zero (.reg op2))
    (.set (r := op6) (evals_zeroExtendLshiftrt _ op6 h8)
      (.set (r := op0) (evals_xor _ op0 op6) (.set (r := op0) (evals_zeroExtendHI _ op0) (.nil _))))
  have hr := Runs.set (r := op5) (evals_zeroExtendHI ρ op2)
    (.set (r := op6) (evals_zeroExtendLshiftrt _ op6 h8)
      (.set (r := op0) (evals_ifThenElse _ .eq op1 (.reg op5) .zero)
        (.set (r := op0) (evals_unspecCrc _ op0 op6) (.nil _))))
  refine (leaveSame_iff hm hr).trans ((forall_ne_iff (Ne.symm h0) ?_).trans ?_)
  · intro r hr0 hr5
    simp [Function.update_apply, hr0, hr5, Ne.symm h06, Ne.symm h6]
  · simp [Function.update_apply, Arm.value, Cmp.holds, h06, Ne.symm h06, Ne.symm h1, Ne.symm h6, h6]

/-- The replacement selects the extended value where the matched sequence selects 0. So the two
    agree only where that makes no difference: the extended value is 0 itself, or the register
    the select asks about is the shifted one, and the shift, which the replacement does first,
    turns it from nonzero into 0. -/
theorem second_preserves_iff (ρ : RegFile 64) (h36 : op3 = op6) (h67 : op6 = op7) (h04 : op0 = op4)
    (h06 : op0 ≠ op6) (h26 : op2 ≠ op6) (h7 : (ρ op7).toNat < 2 ^ 16) (h8 : op8 < 32)
    (hscratch : op5 ∉ [op0, op1, op2, op3, op4, op6, op7]) :
    LeaveSame op5 (secondMatched op0 op1 op2 op3 op4 op6 op7 op8)
        (secondReplacement op0 op1 op2 op3 op5 op6 op7 op8) ρ ↔
      (ρ op2).toNat % 2 ^ 16 = 0 ∨
        (op1 = op6 ∧ 0 < (ρ op7).toNat ∧ (ρ op7).toNat < 2 ^ op8) := by
  subst h36 h67 h04
  have hscratch : op5 ∉ [op0, op1, op2, op3] := fun h => hscratch (List.mem_append_left _ h)
  refine (second_leaveSame_iff ρ h06 h8 hscratch).trans ?_
  have hs : (zextShift (ρ op3) op8).toNat = (ρ op3).toNat >>> op8 := toNat_zextShift h7 op8
  have hz : zext16 (zextShift (ρ op3) op8) = zextShift (ρ op3) op8 := by
    apply zext16_of_lt
    rw [hs]
    exact Nat.lt_of_le_of_lt (Nat.shiftRight_le _ _) h7
  have h2 : zext16 (ρ op2) = 0#64 ↔ (ρ op2).toNat % 2 ^ 16 = 0 := by
    rw [← BitVec.toNat_inj]
    simp [zext16]
    omega
  have hshift : zextShift (ρ op3) op8 = 0#64 ↔ (ρ op3).toNat < 2 ^ op8 := by
    rw [← BitVec.toNat_inj, hs, Nat.shiftRight_eq_div_pow]
    simp [Nat.div_eq_zero_iff]
  have hpos : ρ op3 ≠ 0#64 ↔ 0 < (ρ op3).toNat := by
    rw [Ne, ← BitVec.toNat_inj]
    exact Nat.pos_iff_ne_zero.symm
  rw [zext16_xor, hz, ← h2, ← hpos, ← hshift]
  -- what the select asks about, and whether the shift comes before it
  by_cases h1 : ρ op1 = 0#64
  · by_cases h13 : op1 = op3
    · subst h13
      simp [h1, zextShift, eq_comm (a := 0#64)]
    · rw [eq_comm]
      simp [h1, h13]
  · by_cases h13 : op1 = op3
    · subst h13
      by_cases hz0 : zextShift (ρ op1) op8 = 0#64
      · simp [h1, hz0]
      · simp [h1, hz0]
    · simp [h1, h13]

theorem second_preserves_zero :
    LeaveSame 14 (secondMatched 10 11 12 13 10 13 13 1) (secondReplacement 10 11 12 13 14 13 13 1)
      (fun r => if r = 12 then 0x10000 else 1 : RegFile 64) :=
  (second_preserves_iff _ rfl rfl rfl (by decide) (by decide) (by decide) (by decide)
    (by decide)).mpr (by decide)

theorem not_second_preserves :
    ¬ LeaveSame 14 (secondMatched 10 11 12 13 10 13 13 1)
      (secondReplacement 10 11 12 13 14 13 13 1) (fun _ => 1 : RegFile 64) := by
  rw [second_leaveSame_iff _ (by decide) (by decide) (by decide)]
  decide

end Preservation

end Gcc
