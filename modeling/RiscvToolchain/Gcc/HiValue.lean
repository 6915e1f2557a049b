import RiscvToolchain.Gcc.Rtl

/- `check_reg_holds_hi_value` and the three CRC peepholes that rely on it, in their
   final patched form.

   Correspondence (C and machine description ↔ Lean):
     `check_reg_holds_hi_value_1`      ↔ `checkRegHoldsHiValue1`, over the insns before
                                         `cur`, the nearest first
     `check_reg_holds_hi_value`        ↔ `checkRegHoldsHiValue` (limit 2)
     the three `define_peephole2`      ↔ the constructors of `Peephole`
     one replacement in a block        ↔ `Rewrites`
   The check trusts the UNSPEC mark, and the peepholes that trust the check create it.
   What breaks the circle is a forward analysis of the block: the registers known to
   hold a value below 2^16, and the registers whose last definition is a CLOBBER
   (`Abs`). In a block where every marked insn has operands that are known and no
   insn reads a clobbered register (`Inv`), the check finds only registers that are
   known (`known_of_check`); a peephole applied where its condition holds leaves such
   a block (`Rewrites.inv`). -/
namespace Gcc
open Semantics

/-! The check. -/

/-- The insns before `cur`, the nearest first; `none` is `REGNO` of an operand that is no
    register. -/
def checkRegHoldsHiValue1 : List Insn → Operand → Nat → Option Bool
  | _, .other _, _ => none
  | [], .reg _, _ => some false
  | .insn p :: earlier, .reg regno, recLimit =>
    if regno ∈ p.defs then
      -- the source of the SET decides, also when the definition is a CLOBBER beside it
      match p.src with
      | .unspecCrc _ _ => some true
      | .zeroExtendHI _ => some true
      | .lshiftrt _ x _ =>
        if 1 ≤ recLimit then checkRegHoldsHiValue1 earlier x (recLimit - 1) else some false
      | .zeroExtendLshiftrt x _ =>
        if 1 ≤ recLimit then checkRegHoldsHiValue1 earlier x (recLimit - 1) else some false
      | _ => some false
    else checkRegHoldsHiValue1 earlier (.reg regno) recLimit
  | .note :: earlier, .reg regno, recLimit => checkRegHoldsHiValue1 earlier (.reg regno) recLimit
  | .debug :: earlier, .reg regno, recLimit => checkRegHoldsHiValue1 earlier (.reg regno) recLimit

/-- The check at the insn that follows `before` in its block. -/
def checkRegHoldsHiValue (before : List Insn) (regno : RegNo) : Option Bool :=
  checkRegHoldsHiValue1 before.reverse (.reg regno) 2

/-! The peepholes. -/

/-- The insns a peephole matches after `before`, and those it puts in their place. -/
inductive Peephole (before : List Insn) : List Pattern → List Pattern → Prop where
  /-- Main CRC pattern for zicond; the scratch is `op5`. -/
  | zicond (op0 op1 op2 op3 op4 op5 : RegNo) : op0 = op4 →
      checkRegHoldsHiValue before op3 = some true →
      Peephole before
        [set op0 (.ifThenElse .eq op1 .zero (.reg op2)),
          set op0 (.xor op0 op3),
          set op0 (.zeroExtendHI (.reg op4))]
        [set op5 (.zeroExtendHI (.reg op2)),
          set op0 (.ifThenElse .eq op1 .zero (.reg op5)),
          set op0 (.unspecCrc op0 op3)]
  /-- Main CRC pattern for SFB; the scratch is `op4`. -/
  | sfb (op0 op1 op2 op3 op4 : RegNo) : op0 = op3 →
      checkRegHoldsHiValue before op2 = some true →
      Peephole before
        [set op0 (.ifThenElse .ne op1 (.reg op0) .zero),
          set op0 (.xor op0 op2),
          set op0 (.zeroExtendHI (.reg op3))]
        [set op4 (.zeroExtendHI (.reg op0)),
          set op4 (.ifThenElse .ne op1 (.reg op4) .zero),
          set op0 (.unspecCrc op4 op2)]
  /-- Second CRC variant; the scratch is `op5`. -/
  | second (op0 op1 op2 op3 op4 op5 op6 op7 : RegNo) (op8 : Nat) : op3 = op6 → op6 = op7 →
      op0 = op4 → op0 ≠ op6 → op2 ≠ op6 →
      checkRegHoldsHiValue before op7 = some true →
      Peephole before
        [set op0 (.ifThenElse .eq op1 .zero (.reg op2)),
          set op6 (.zeroExtendLshiftrt (.reg op7) (.const op8)),
          set op0 (.xor op0 op3),
          set op0 (.zeroExtendHI (.reg op4))]
        [set op5 (.zeroExtendHI (.reg op2)),
          set op6 (.zeroExtendLshiftrt (.reg op7) (.const op8)),
          set op0 (.ifThenElse .eq op1 (.reg op5) .zero),
          set op0 (.unspecCrc op0 op3)]

/-- One application of a peephole in a block. Notes and debug insns between the matched insns
    do not hinder a match, and may stay or go. -/
inductive Rewrites : List Insn → List Insn → Prop where
  | apply (before window window' after : List Insn) :
      Peephole before (realInsns window) (realInsns window') →
      Rewrites (before ++ (window ++ after)) (before ++ (window' ++ after))

/-! The analysis. -/

/-- What is known before an insn: registers that hold a value below 2^16, and registers whose
    last definition is a CLOBBER. -/
structure Abs where
  known : Set RegNo
  clobbered : Set RegNo

def Arm.Small (known : Set RegNo) : Arm → Prop
  | .zero => True
  | .reg r => r ∈ known

def Operand.Small (known : Set RegNo) : Operand → Prop
  | .reg r => r ∈ known
  | .other _ => False

/-- Sources whose value is below 2^16. -/
def Src.Small (known : Set RegNo) : Src → Prop
  | .zeroExtendHI _ => True
  | .lshiftrt _ x _ => x.Small known
  | .zeroExtendLshiftrt x _ => x.Small known
  | .ifThenElse _ _ a b => a.Small known ∧ b.Small known
  | .xor x y => x = y ∨ (x ∈ known ∧ y ∈ known)
  | .unspecCrc x y => x = y ∨ (x ∈ known ∧ y ∈ known)
  | .other _ => False

def Pattern.transfer (a : Abs) (p : Pattern) : Abs where
  known := {r | r ∉ p.clobbers ∧ if p.dest = .reg r then p.src.Small a.known else r ∈ a.known}
  clobbered := {r | r ∈ p.clobbers ∨ (p.dest ≠ .reg r ∧ r ∈ a.clobbered)}

def Insn.transfer (a : Abs) : Insn → Abs
  | .insn p => p.transfer a
  | _ => a

/-- Nothing is known where a block starts. -/
def Abs.start : Abs := ⟨∅, ∅⟩

def Abs.after (l : List Insn) : Abs := l.foldl Insn.transfer Abs.start

/-- A marked insn has operands that are known. -/
def Src.MarkOk (known : Set RegNo) : Src → Prop
  | .unspecCrc x y => (Src.unspecCrc x y).Small known
  | _ => True

/-- The insn reads no register whose last definition is a CLOBBER. -/
def Pattern.ReadsOk (a : Abs) (p : Pattern) : Prop := ∀ r ∈ p.reads, r ∉ a.clobbered

/-- The condition on one insn. -/
def Insn.Ok (a : Abs) : Insn → Prop
  | .insn p => p.src.MarkOk a.known ∧ p.ReadsOk a
  | _ => True

/-- The invariant of a block. -/
abbrev Inv (l : List Insn) : Prop := Always Insn.transfer Insn.Ok Abs.start l

/-! The analysis is sound. -/

section Soundness
variable {W : Nat}

def Holds (a : Abs) (ρ : RegFile W) : Prop := ∀ r ∈ a.known, (ρ r).toNat < 2 ^ 16

theorem toNat_shiftRight_lt {m : Mode} {x : BitVec W} {n : Nat} (h : x.toNat < 2 ^ 16) :
    (shiftRight m x n).toNat < 2 ^ 16 := by
  cases m with
  | x =>
    show (x >>> n).toNat < 2 ^ 16
    rw [BitVec.toNat_ushiftRight]
    exact Nat.lt_of_le_of_lt (Nat.shiftRight_le _ _) h
  | si =>
    show ((x.setWidth 32 >>> n).signExtend W).toNat < 2 ^ 16
    have hlt : (x.setWidth 32 >>> n).toNat < 2 ^ 16 := by
      rw [BitVec.toNat_ushiftRight, BitVec.toNat_setWidth]
      have h₁ := Nat.shiftRight_le (x.toNat % 2 ^ 32) n
      have h₂ := Nat.mod_le x.toNat (2 ^ 32)
      omega
    have hmsb : (x.setWidth 32 >>> n).msb = false := by
      rw [BitVec.msb_eq_false_iff_two_mul_lt]
      omega
    rw [BitVec.signExtend_eq_setWidth_of_msb_false hmsb, BitVec.toNat_setWidth]
    exact Nat.lt_of_le_of_lt (Nat.mod_le _ _) hlt

theorem toNat_zeroExtendShift_lt {x : BitVec W} {n : Nat} (h : x.toNat < 2 ^ 16) :
    ((x.setWidth 32 >>> n).setWidth W).toNat < 2 ^ 16 := by
  rw [BitVec.toNat_setWidth, BitVec.toNat_ushiftRight, BitVec.toNat_setWidth]
  have h₁ := Nat.mod_le ((x.toNat % 2 ^ 32) >>> n) (2 ^ W)
  have h₂ := Nat.shiftRight_le (x.toNat % 2 ^ 32) n
  have h₃ := Nat.mod_le x.toNat (2 ^ 32)
  omega

theorem toNat_xor_lt {x y : BitVec W} (hx : x.toNat < 2 ^ 16) (hy : y.toNat < 2 ^ 16) :
    (x ^^^ y).toNat < 2 ^ 16 := by
  rw [BitVec.toNat_xor]
  exact Nat.xor_lt_two_pow hx hy

theorem Operand.Small.lt {a : Abs} {ρ : RegFile W} (hρ : Holds a ρ) {x : Operand} {v : BitVec W}
    (hs : x.Small a.known) (hv : x.Evals ρ v) : v.toNat < 2 ^ 16 := by
  cases x with
  | reg r =>
    have hv : v = ρ r := hv
    rw [hv]
    exact hρ r hs
  | other rs => exact hs.elim

theorem Arm.Small.lt {a : Abs} {ρ : RegFile W} (hρ : Holds a ρ) {x : Arm}
    (hs : x.Small a.known) : (x.value ρ).toNat < 2 ^ 16 := by
  cases x with
  | zero => show (0 : BitVec W).toNat < 2 ^ 16; simp
  | reg r => exact hρ r hs

theorem xor_small {a : Abs} {ρ : RegFile W} (hρ : Holds a ρ) {x y : RegNo}
    (hs : x = y ∨ (x ∈ a.known ∧ y ∈ a.known)) : (ρ x ^^^ ρ y).toNat < 2 ^ 16 := by
  rcases hs with rfl | ⟨hx, hy⟩
  · simp
  · exact toNat_xor_lt (hρ x hx) (hρ y hy)

theorem Src.Small.lt {a : Abs} {ρ : RegFile W} (hρ : Holds a ρ) {s : Src} {v : BitVec W}
    (hs : s.Small a.known) (hv : s.Evals ρ v) : v.toNat < 2 ^ 16 := by
  cases s with
  | zeroExtendHI x =>
    obtain ⟨w, -, rfl⟩ := hv
    rw [BitVec.toNat_setWidth]
    have h₁ := Nat.mod_le (w.setWidth 16).toNat (2 ^ W)
    have h₂ := (w.setWidth 16).isLt
    omega
  | lshiftrt m x n =>
    obtain ⟨-, w, hw, rfl⟩ := hv
    exact toNat_shiftRight_lt (Operand.Small.lt hρ hs hw)
  | zeroExtendLshiftrt x n =>
    obtain ⟨-, w, hw, rfl⟩ := hv
    exact toNat_zeroExtendShift_lt (Operand.Small.lt hρ hs hw)
  | ifThenElse cmp r x y =>
    -- both arms are small, whichever the comparison takes
    have hv : v = if cmp.holds (ρ r) then x.value ρ else y.value ρ := hv
    rw [hv]
    split
    · exact Arm.Small.lt hρ hs.1
    · exact Arm.Small.lt hρ hs.2
  | xor x y =>
    have hv : v = ρ x ^^^ ρ y := hv
    rw [hv]
    exact xor_small hρ hs
  | unspecCrc x y =>
    have hv : v = ρ x ^^^ ρ y := hv
    rw [hv]
    exact xor_small hρ hs
  | other rs => exact hs.elim

theorem holds_transfer (a : Abs) (i : Insn) (ρ ρ' : RegFile W) (hρ : Holds a ρ)
    (h : i.Step ρ ρ') : Holds (i.transfer a) ρ' := by
  cases i with
  | note =>
    have h : ρ' = ρ := h
    rw [h]
    exact hρ
  | debug =>
    have h : ρ' = ρ := h
    rw [h]
    exact hρ
  | insn p =>
    obtain ⟨v, hv, hrest⟩ := h
    intro r ⟨hclob, hr⟩
    rw [hrest r hclob]
    by_cases hd : p.dest = .reg r
    · rw [if_pos hd] at hr ⊢
      exact Src.Small.lt hρ hr hv
    · rw [if_neg hd] at hr ⊢
      exact hρ r hr

theorem holds_after {l : List Insn} {ρ ρ' : RegFile W} (h : Exec l ρ ρ') :
    Holds (Abs.after l) ρ' :=
  h.foldl_sound holds_transfer Abs.start (fun r hr => absurd hr (Set.notMem_empty r))

end Soundness

/-! The check finds registers that are known. -/

theorem mem_defs_iff {p : Pattern} {r : RegNo} : r ∈ p.defs ↔ p.dest = .reg r ∨ r ∈ p.clobbers := by
  unfold Pattern.defs
  split
  · rename_i d hd
    rw [hd, List.mem_cons, Dest.reg.injEq]
    exact or_congr eq_comm Iff.rfl
  · rename_i rs hd
    simp [hd]

theorem after_snoc (l : List Insn) (i : Insn) :
    Abs.after (l ++ [i]) = i.transfer (Abs.after l) := by
  simp [Abs.after]

theorem inv_snoc {l : List Insn} {i : Insn} (h : Inv (l ++ [i])) : Inv l ∧ i.Ok (Abs.after l) := by
  obtain ⟨hl, hi⟩ := Always.append_iff.mp h
  exact ⟨hl, hi.1⟩

/-- By induction on the insns before `cur`: the definition the loop stops at is the last one, and
    the recursion asks about a register that this very insn reads. -/
theorem known_of_check (l : List Insn) : Inv l → ∀ (x : Operand) (recLimit : Nat),
    (∀ r ∈ x.reads, r ∉ (Abs.after l).clobbered) →
    checkRegHoldsHiValue1 l.reverse x recLimit = some true → x.Small (Abs.after l).known := by
  induction l using List.reverseRecOn with
  | nil =>
    intro _ x recLimit _ hchk
    cases x <;> simp [checkRegHoldsHiValue1] at hchk
  | append_singleton l i ih =>
    intro hsnoc x recLimit hreads hchk
    obtain ⟨hinv, hok⟩ := inv_snoc hsnoc
    rw [List.reverse_append, List.reverse_singleton, List.singleton_append] at hchk
    rw [after_snoc] at hreads ⊢
    cases x with
    | other rs => simp [checkRegHoldsHiValue1] at hchk
    | reg r =>
      have hclob : r ∉ (i.transfer (Abs.after l)).clobbered := hreads r List.mem_cons_self
      cases i with
      -- the loop passes over both
      | note => exact ih hinv (.reg r) recLimit hreads hchk
      | debug => exact ih hinv (.reg r) recLimit hreads hchk
      | insn p =>
        have hnc : r ∉ p.clobbers := fun h => hclob (Or.inl h)
        show r ∉ p.clobbers ∧ if p.dest = .reg r then _ else _
        refine ⟨hnc, ?_⟩
        have hread : ∀ y, (∀ q ∈ y.reads, q ∈ p.reads) → ∀ n,
            checkRegHoldsHiValue1 l.reverse y n = some true → y.Small (Abs.after l).known :=
          fun y hy n hn => ih hinv y n (fun q hq => hok.2 q (hy q hq)) hn
        rw [checkRegHoldsHiValue1] at hchk
        by_cases hdest : p.dest = .reg r
        · -- the last definition
          rw [if_pos (mem_defs_iff.mpr (Or.inl hdest))] at hchk
          rw [if_pos hdest]
          have hsrc : ∀ q ∈ p.src.reads, q ∈ p.reads := fun q hq => List.mem_append_left _ hq
          have hmark := hok.1
          cases hs : p.src with
          | unspecCrc x y => rw [hs] at hmark; exact hmark
          | zeroExtendHI x => trivial
          | lshiftrt m x n =>
            rw [hs] at hchk hsrc
            simp only at hchk
            split at hchk
            · exact hread x (fun q hq => hsrc q (List.mem_append_left _ hq)) _ hchk
            · cases hchk
          | zeroExtendLshiftrt x n =>
            rw [hs] at hchk hsrc
            simp only at hchk
            split at hchk
            · exact hread x (fun q hq => hsrc q (List.mem_append_left _ hq)) _ hchk
            · cases hchk
          | ifThenElse c q a b => rw [hs] at hchk; cases hchk
          | xor x y => rw [hs] at hchk; cases hchk
          | other rs => rw [hs] at hchk; cases hchk
        · -- neither set nor clobbered: the question goes on to the insn before
          have hndef : r ∉ p.defs := fun h => (mem_defs_iff.mp h).elim hdest hnc
          rw [if_neg hndef] at hchk
          rw [if_neg hdest]
          refine ih hinv (.reg r) recLimit ?_ hchk
          intro q hq
          obtain rfl := List.mem_singleton.mp hq
          exact fun h => hclob (Or.inr ⟨hdest, h⟩)

/-! More known, less clobbered: nothing is lost. -/

/-- `b` knows all that `a` knows. -/
structure Abs.Le (a b : Abs) : Prop where
  known : a.known ⊆ b.known
  clobbered : b.clobbered ⊆ a.clobbered

theorem Arm.Small.mono {s t : Set RegNo} (h : s ⊆ t) {x : Arm} (hx : x.Small s) : x.Small t := by
  cases x with
  | zero => trivial
  | reg r => exact h hx

theorem Operand.Small.mono {s t : Set RegNo} (h : s ⊆ t) {x : Operand} (hx : x.Small s) :
    x.Small t := by
  cases x with
  | reg r => exact h hx
  | other rs => exact hx

theorem Src.Small.mono {s t : Set RegNo} (h : s ⊆ t) {x : Src} (hx : x.Small s) : x.Small t := by
  cases x with
  | zeroExtendHI x => trivial
  | lshiftrt m x n => exact Operand.Small.mono h hx
  | zeroExtendLshiftrt x n => exact Operand.Small.mono h hx
  | ifThenElse c r a b => exact ⟨Arm.Small.mono h hx.1, Arm.Small.mono h hx.2⟩
  | xor x y => exact hx.imp id (fun hxy => ⟨h hxy.1, h hxy.2⟩)
  | unspecCrc x y => exact hx.imp id (fun hxy => ⟨h hxy.1, h hxy.2⟩)
  | other rs => exact hx

theorem Pattern.transfer_mono {a b : Abs} (p : Pattern) (h : a.Le b) :
    (p.transfer a).Le (p.transfer b) := by
  refine ⟨?_, ?_⟩
  · intro r ⟨hc, hr⟩
    refine ⟨hc, ?_⟩
    split
    · rename_i hd
      rw [if_pos hd] at hr
      exact Src.Small.mono h.known hr
    · rename_i hd
      rw [if_neg hd] at hr
      exact h.known hr
  · intro r hr
    exact hr.imp id (fun hr => ⟨hr.1, h.clobbered hr.2⟩)

theorem Insn.transfer_mono (a b : Abs) (i : Insn) (h : a.Le b) : (i.transfer a).Le (i.transfer b) := by
  cases i with
  | note => exact h
  | debug => exact h
  | insn p => exact p.transfer_mono h

theorem Insn.ok_mono (a b : Abs) (i : Insn) (h : a.Le b) (hi : i.Ok a) : i.Ok b := by
  cases i with
  | note => trivial
  | debug => trivial
  | insn p =>
    refine ⟨?_, fun r hr hc => hi.2 r hr (h.clobbered hc)⟩
    have hmark := hi.1
    cases hs : p.src with
    | unspecCrc x y =>
      rw [hs] at hmark
      have hsmall : (Src.unspecCrc x y).Small a.known := hmark
      exact Src.Small.mono h.known hsmall
    | _ => trivial

/-! Notes and debug insns do not matter. -/

theorem foldl_transfer_realInsns (l : List Insn) (a : Abs) :
    l.foldl Insn.transfer a = (realInsns l).foldl Pattern.transfer a := by
  induction l generalizing a with
  | nil => rfl
  | cons i l ih => cases i <;> exact ih _

/-- The condition on one pattern. -/
def Pattern.Ok (a : Abs) (p : Pattern) : Prop := p.src.MarkOk a.known ∧ p.ReadsOk a

theorem always_realInsns (l : List Insn) (a : Abs) :
    Always Insn.transfer Insn.Ok a l ↔ Always Pattern.transfer Pattern.Ok a (realInsns l) := by
  induction l generalizing a with
  | nil => exact Iff.rfl
  | cons i l ih =>
    cases i with
    | note => exact (and_iff_right trivial).trans (ih a)
    | debug => exact (and_iff_right trivial).trans (ih a)
    | insn p => exact and_congr Iff.rfl (ih _)

/-! What a window leaves behind. -/

theorem mem_known_set {a : Abs} {r q : RegNo} {s : Src} :
    q ∈ ((set r s).transfer a).known ↔ if r = q then s.Small a.known else q ∈ a.known := by
  simp [Pattern.transfer, set]

theorem mem_clobbered_set {a : Abs} {r q : RegNo} {s : Src} :
    q ∈ ((set r s).transfer a).clobbered ↔ r ≠ q ∧ q ∈ a.clobbered := by
  simp [Pattern.transfer, set]

/-- The insn writes a value below 2^16, and may read what it reads. -/
def Pattern.SmallOk (a : Abs) (p : Pattern) : Prop := p.src.Small a.known ∧ p.ReadsOk a

theorem Src.Small.markOk {k : Set RegNo} {s : Src} (h : s.Small k) : s.MarkOk k := by
  cases s with
  | unspecCrc x y => exact h
  | _ => trivial

theorem always_ok_of_smallOk {a : Abs} {l : List Pattern}
    (h : Always Pattern.transfer Pattern.SmallOk a l) : Always Pattern.transfer Pattern.Ok a l := by
  induction l generalizing a with
  | nil => trivial
  | cons p l ih => exact ⟨⟨h.1.1.markOk, h.1.2⟩, ih h.2⟩

theorem known_foldl_subset {a : Abs} {l : List Pattern} (hsets : ∀ p ∈ l, ∃ r s, p = set r s) {q : RegNo}
    (h : q ∈ (l.foldl Pattern.transfer a).known) : q ∈ a.known ∨ ∃ s, set q s ∈ l := by
  induction l generalizing a with
  | nil => exact Or.inl h
  | cons p l ih =>
    obtain ⟨r, s, rfl⟩ := hsets p (by simp)
    rcases ih (fun p hp => hsets p (by simp [hp])) h with hq | ⟨t, ht⟩
    · rw [mem_known_set] at hq
      split at hq
      · rename_i hr
        subst hr
        exact Or.inr ⟨s, by simp⟩
      · exact Or.inl hq
    · exact Or.inr ⟨t, by simp [ht]⟩

theorem subset_known_foldl {a : Abs} {l : List Pattern} (hsets : ∀ p ∈ l, ∃ r s, p = set r s)
    (hsmall : Always Pattern.transfer Pattern.SmallOk a l) {q : RegNo}
    (h : q ∈ a.known ∨ ∃ s, set q s ∈ l) : q ∈ (l.foldl Pattern.transfer a).known := by
  induction l generalizing a with
  | nil =>
    rcases h with h | ⟨s, hs⟩
    · exact h
    · cases hs
  | cons p l ih =>
    obtain ⟨r, s, rfl⟩ := hsets p (by simp)
    apply ih (fun p hp => hsets p (by simp [hp])) hsmall.2
    rcases h with h | ⟨t, ht⟩
    · refine Or.inl (mem_known_set.mpr ?_)
      split
      · exact hsmall.1.1
      · exact h
    · rcases List.mem_cons.mp ht with he | ht
      · have hqr : r = q := (Dest.reg.inj (congrArg Pattern.dest he)).symm
        exact Or.inl (mem_known_set.mpr (by rw [if_pos hqr]; exact hsmall.1.1))
      · exact Or.inr ⟨t, ht⟩

theorem mem_clobbered_foldl {a : Abs} {l : List Pattern} (hsets : ∀ p ∈ l, ∃ r s, p = set r s)
    {q : RegNo} : q ∈ (l.foldl Pattern.transfer a).clobbered ↔
      q ∈ a.clobbered ∧ ∀ s, set q s ∉ l := by
  induction l generalizing a with
  | nil => simp
  | cons p l ih =>
    obtain ⟨r, s, rfl⟩ := hsets p (by simp)
    rw [List.foldl_cons, ih (fun p hp => hsets p (by simp [hp])), mem_clobbered_set]
    refine ⟨?_, ?_⟩
    · intro ⟨⟨hr, hq⟩, hl⟩
      refine ⟨hq, ?_⟩
      intro t ht
      rcases List.mem_cons.mp ht with he | ht
      · exact hr (Dest.reg.inj (congrArg Pattern.dest he)).symm
      · exact hl t ht
    · intro ⟨hq, hl⟩
      refine ⟨⟨?_, hq⟩, fun t ht => hl t (by simp [ht])⟩
      intro hr
      subst hr
      exact hl s (by simp)

/-- A replacement that writes small values to all the destinations of the window knows no
    less after it. -/
theorem le_of_smallOk {a : Abs} {l l' : List Pattern} (hl : ∀ p ∈ l, ∃ r s, p = set r s)
    (hl' : ∀ p ∈ l', ∃ r s, p = set r s) (hdest : ∀ r s, set r s ∈ l → ∃ t, set r t ∈ l')
    (hsmall : Always Pattern.transfer Pattern.SmallOk a l') :
    (l.foldl Pattern.transfer a).Le (l'.foldl Pattern.transfer a) := by
  refine ⟨?_, ?_⟩
  · intro q hq
    refine subset_known_foldl hl' hsmall ?_
    exact (known_foldl_subset hl hq).imp id (fun ⟨s, hs⟩ => hdest q s hs)
  · intro q hq
    obtain ⟨hqa, hq'⟩ := (mem_clobbered_foldl hl').mp hq
    refine (mem_clobbered_foldl hl).mpr ⟨hqa, ?_⟩
    intro s hs
    obtain ⟨t, ht⟩ := hdest q s hs
    exact hq' t ht

/-! The three peepholes. -/

theorem known_of_peephole_check {before : List Insn} (hinv : Inv before) {r : RegNo}
    (hchk : checkRegHoldsHiValue before r = some true) (hclob : r ∉ (Abs.after before).clobbered) :
    r ∈ (Abs.after before).known := by
  refine known_of_check before hinv (.reg r) 2 ?_ hchk
  intro q hq
  obtain rfl := List.mem_singleton.mp hq
  exact hclob

section SetReads
variable {a : Abs} {r x y : RegNo}

@[simp] theorem src_set (r : RegNo) (s : Src) : (set r s).src = s := rfl

@[simp] theorem readsOk_zeroExtendHI : (set r (.zeroExtendHI (.reg x))).ReadsOk a ↔ x ∉ a.clobbered := by
  simp [Pattern.ReadsOk, Pattern.reads, Src.reads, Operand.reads, Dest.reads, set]

@[simp] theorem readsOk_zeroExtendLshiftrt {n : Nat} :
    (set r (.zeroExtendLshiftrt (.reg x) (.const n))).ReadsOk a ↔ x ∉ a.clobbered := by
  simp [Pattern.ReadsOk, Pattern.reads, Src.reads, Operand.reads, ShiftCount.reads, Dest.reads, set]

@[simp] theorem readsOk_ifThenElse {c : Cmp} {u v : Arm} :
    (set r (.ifThenElse c x u v)).ReadsOk a ↔
      x ∉ a.clobbered ∧ (∀ q ∈ u.reads, q ∉ a.clobbered) ∧ ∀ q ∈ v.reads, q ∉ a.clobbered := by
  simp [Pattern.ReadsOk, Pattern.reads, Src.reads, Dest.reads, set, or_imp, forall_and]

@[simp] theorem readsOk_xor : (set r (.xor x y)).ReadsOk a ↔ x ∉ a.clobbered ∧ y ∉ a.clobbered := by
  simp [Pattern.ReadsOk, Pattern.reads, Src.reads, Dest.reads, set]

@[simp] theorem readsOk_unspecCrc :
    (set r (.unspecCrc x y)).ReadsOk a ↔ x ∉ a.clobbered ∧ y ∉ a.clobbered := by
  simp [Pattern.ReadsOk, Pattern.reads, Src.reads, Dest.reads, set]

end SetReads

/-- The conditions of the SETs of a window, and of its replacement, in terms of the facts before
    the window. -/
theorem always_zicond {a : Abs} {op0 op1 op2 op3 op5 : RegNo}
    (hl : Always Pattern.transfer Pattern.Ok a
      [set op0 (.ifThenElse .eq op1 .zero (.reg op2)), set op0 (.xor op0 op3),
        set op0 (.zeroExtendHI (.reg op0))])
    (hk : op3 ∉ a.clobbered → op3 ∈ a.known) :
    Always Pattern.transfer Pattern.SmallOk a
      [set op5 (.zeroExtendHI (.reg op2)), set op0 (.ifThenElse .eq op1 .zero (.reg op5)),
        set op0 (.unspecCrc op0 op3)] := by
  simp only [Always, Pattern.Ok, Pattern.SmallOk, src_set, readsOk_zeroExtendHI,
    readsOk_ifThenElse, readsOk_xor, readsOk_unspecCrc, mem_known_set, mem_clobbered_set,
    Src.Small, Arm.Small, Src.MarkOk, Arm.reads, List.mem_singleton, List.not_mem_nil] at hl ⊢
  grind

theorem always_sfb {a : Abs} {op0 op1 op2 op4 : RegNo}
    (hl : Always Pattern.transfer Pattern.Ok a
      [set op0 (.ifThenElse .ne op1 (.reg op0) .zero), set op0 (.xor op0 op2),
        set op0 (.zeroExtendHI (.reg op0))])
    (hk : op2 ∉ a.clobbered → op2 ∈ a.known) :
    Always Pattern.transfer Pattern.SmallOk a
      [set op4 (.zeroExtendHI (.reg op0)), set op4 (.ifThenElse .ne op1 (.reg op4) .zero),
        set op0 (.unspecCrc op4 op2)] := by
  simp only [Always, Pattern.Ok, Pattern.SmallOk, src_set, readsOk_zeroExtendHI,
    readsOk_ifThenElse, readsOk_xor, readsOk_unspecCrc, mem_known_set, mem_clobbered_set,
    Src.Small, Arm.Small, Src.MarkOk, Arm.reads, List.mem_singleton, List.not_mem_nil] at hl ⊢
  grind

theorem always_second {a : Abs} {op0 op1 op2 op5 op6 : RegNo} {op8 : Nat} (h06 : op0 ≠ op6)
    (hl : Always Pattern.transfer Pattern.Ok a
      [set op0 (.ifThenElse .eq op1 .zero (.reg op2)),
        set op6 (.zeroExtendLshiftrt (.reg op6) (.const op8)), set op0 (.xor op0 op6),
        set op0 (.zeroExtendHI (.reg op0))])
    (hk : op6 ∉ a.clobbered → op6 ∈ a.known) :
    Always Pattern.transfer Pattern.SmallOk a
      [set op5 (.zeroExtendHI (.reg op2)), set op6 (.zeroExtendLshiftrt (.reg op6) (.const op8)),
        set op0 (.ifThenElse .eq op1 (.reg op5) .zero), set op0 (.unspecCrc op0 op6)] := by
  simp only [Always, Pattern.Ok, Pattern.SmallOk, src_set, readsOk_zeroExtendHI,
    readsOk_zeroExtendLshiftrt, readsOk_ifThenElse, readsOk_xor, readsOk_unspecCrc,
    mem_known_set, mem_clobbered_set, Src.Small, Arm.Small, Operand.Small, Src.MarkOk, Arm.reads,
    List.mem_singleton, List.not_mem_nil] at hl ⊢
  grind

/-- What the matched insns of a window may read, and what the check says of one operand, is what
    its replacement needs. -/
theorem Peephole.smallOk {before : List Insn} {l l' : List Pattern} (h : Peephole before l l')
    (hinv : Inv before) (hl : Always Pattern.transfer Pattern.Ok (Abs.after before) l) :
    Always Pattern.transfer Pattern.SmallOk (Abs.after before) l' := by
  cases h with
  | zicond op0 op1 op2 op3 op4 op5 h04 hchk =>
    subst h04
    exact always_zicond hl (known_of_peephole_check hinv hchk)
  | sfb op0 op1 op2 op3 op4 h03 hchk =>
    subst h03
    exact always_sfb hl (known_of_peephole_check hinv hchk)
  | second op0 op1 op2 op3 op4 op5 op6 op7 op8 h36 h67 h04 h06 h26 hchk =>
    subst h36 h67 h04
    exact always_second h06 hl (known_of_peephole_check hinv hchk)

theorem dest_of_mem {r : RegNo} {s : Src} {l : List Pattern} (h : set r s ∈ l) :
    Dest.reg r ∈ l.map Pattern.dest := List.mem_map.mpr ⟨set r s, h, rfl⟩

/-- A window is made of SETs, and its replacement sets all the registers it sets. -/
theorem Peephole.isSets {before : List Insn} {l l' : List Pattern} (h : Peephole before l l') :
    (∀ p ∈ l, ∃ r s, p = set r s) ∧ (∀ p ∈ l', ∃ r s, p = set r s) ∧
      ∀ r s, set r s ∈ l → ∃ t, set r t ∈ l' := by
  cases h with
  | zicond op0 op1 op2 op3 op4 op5 h04 hchk =>
    refine ⟨by simp, by simp, ?_⟩
    intro r s hr
    obtain rfl : r = op0 := by simpa [set] using dest_of_mem hr
    exact ⟨.unspecCrc r op3, by simp⟩
  | sfb op0 op1 op2 op3 op4 h03 hchk =>
    refine ⟨by simp, by simp, ?_⟩
    intro r s hr
    obtain rfl : r = op0 := by simpa [set] using dest_of_mem hr
    exact ⟨.unspecCrc op4 op2, by simp⟩
  | second op0 op1 op2 op3 op4 op5 op6 op7 op8 h36 h67 h04 h06 h26 hchk =>
    refine ⟨by simp, by simp, ?_⟩
    intro r s hr
    have hd : r = op0 ∨ r = op6 := by
      have := dest_of_mem hr
      simp [set] at this
      tauto
    rcases hd with rfl | rfl
    · exact ⟨.unspecCrc r op3, by simp⟩
    · exact ⟨.zeroExtendLshiftrt (.reg op7) (.const op8), by simp⟩

/-! The invariant of a block survives any number of applications. -/

theorem Rewrites.inv {l l' : List Insn} (h : Rewrites l l') (hl : Inv l) : Inv l' := by
  cases h with
  | apply before window window' after hp =>
    obtain ⟨hbefore, hrest⟩ := Always.append_iff.mp hl
    obtain ⟨hwindow, hafter⟩ := Always.append_iff.mp hrest
    obtain ⟨hsets, hsets', hdest⟩ := hp.isSets
    have hsmall := hp.smallOk hbefore ((always_realInsns window _).mp hwindow)
    -- the insns after the window see more known and less clobbered
    have hle := le_of_smallOk hsets hsets' hdest hsmall
    rw [← foldl_transfer_realInsns, ← foldl_transfer_realInsns] at hle
    refine Always.append_iff.mpr ⟨hbefore, Always.append_iff.mpr ⟨?_, ?_⟩⟩
    · exact (always_realInsns window' _).mpr (always_ok_of_smallOk hsmall)
    · exact Always.mono Insn.ok_mono Insn.transfer_mono hle hafter

/-- Any number of applications, in any order and anywhere. -/
abbrev RewritesMany (l l' : List Insn) : Prop := Relation.ReflTransGen Rewrites l l'

theorem RewritesMany.inv {l l' : List Insn} (h : RewritesMany l l') (hl : Inv l) : Inv l' := by
  induction h with
  | refl => exact hl
  | tail _ hstep ih => exact hstep.inv ih

/-! Blocks as the compiler has them. -/

/-- The block has no marked insn. -/
def Unmarked (l : List Insn) : Prop := ∀ p, .insn p ∈ l → ∀ x y, p.src ≠ .unspecCrc x y

/-- The last definition of the register in the insns, the nearest first, is a CLOBBER. -/
def lastClobbered : List Insn → RegNo → Bool
  | [], _ => false
  | .insn p :: earlier, r =>
    if r ∈ p.clobbers then true
    else if p.dest = .reg r then false
    else lastClobbered earlier r
  | .note :: earlier, r => lastClobbered earlier r
  | .debug :: earlier, r => lastClobbered earlier r

/-- The block never reads a register whose last definition is a CLOBBER. -/
def NoClobberedRead (l : List Insn) : Prop :=
  ∀ before p after, l = before ++ .insn p :: after →
    ∀ r ∈ p.reads, lastClobbered before.reverse r = false

theorem mem_clobbered_after (l : List Insn) (r : RegNo) :
    r ∈ (Abs.after l).clobbered ↔ lastClobbered l.reverse r = true := by
  induction l using List.reverseRecOn with
  | nil => simp [Abs.after, Abs.start, lastClobbered]
  | append_singleton l i ih =>
    rw [after_snoc, List.reverse_append, List.reverse_singleton, List.singleton_append]
    cases i with
    | note => exact ih
    | debug => exact ih
    | insn p =>
      show (r ∈ p.clobbers ∨ (p.dest ≠ .reg r ∧ r ∈ (Abs.after l).clobbered)) ↔ _
      rw [lastClobbered, ih]
      by_cases hc : r ∈ p.clobbers
      · simp [hc]
      · by_cases hd : p.dest = .reg r <;> simp [hc, hd]

theorem inv_of_unmarked {l : List Insn} (hun : Unmarked l) (hread : NoClobberedRead l) : Inv l := by
  induction l using List.reverseRecOn with
  | nil => trivial
  | append_singleton l i ih =>
    have hl : Inv l := by
      refine ih (fun p hp => hun p (by simp [hp])) ?_
      intro before p after he
      exact hread before p (after ++ [i]) (by rw [he]; simp)
    refine Always.append_iff.mpr ⟨hl, ?_, trivial⟩
    cases i with
    | note => trivial
    | debug => trivial
    | insn p =>
      refine ⟨?_, ?_⟩
      · have hp := hun p (by simp)
        cases hs : p.src with
        | unspecCrc x y => exact absurd hs (hp x y)
        | _ => trivial
      · intro r hr hc
        have hfalse := hread l p [] rfl r hr
        rw [(mem_clobbered_after l r).mp hc] at hfalse
        cases hfalse

/-- The check is sound in every block the peepholes can make: where it succeeds for a register
    whose last definition is no CLOBBER, the register holds a value below 2^16, in every
    execution that reaches the insn; and every marked insn writes a value below 2^16. -/
theorem checkRegHoldsHiValue_sound {W : Nat} (block block' before after : List Insn) (cur : Insn)
    (hun : Unmarked block) (hread : NoClobberedRead block) (hrw : RewritesMany block block')
    (hcur : block' = before ++ cur :: after) (ρ ρ' : RegFile W) (hexec : Exec before ρ ρ') :
    (∀ r, lastClobbered before.reverse r = false → checkRegHoldsHiValue before r = some true →
      (ρ' r).toNat < 2 ^ 16) ∧
    ∀ p x y, cur = .insn p → p.src = .unspecCrc x y →
      ∀ v : BitVec W, p.src.Evals ρ' v → v.toNat < 2 ^ 16 := by
  have hinv := hrw.inv (inv_of_unmarked hun hread)
  rw [hcur] at hinv
  obtain ⟨hbefore, hrest⟩ := Always.append_iff.mp hinv
  have hholds := holds_after hexec
  refine ⟨?_, ?_⟩
  · intro r hlast hchk
    apply hholds r
    apply known_of_peephole_check hbefore hchk
    rw [mem_clobbered_after, hlast]
    decide
  · intro p x y he hs v hv
    subst he
    have hmark := hrest.1.1
    rw [hs] at hmark hv
    have hsmall : (Src.unspecCrc x y).Small (Abs.after before).known := hmark
    exact Src.Small.lt hholds hsmall hv

/-- A CRC step on the registers 10 to 13, after an insn that leaves a small value in 13. -/
def crcBlock : List Insn :=
  [.insn (set 13 (.zeroExtendHI (.reg 14))),
    .insn (set 10 (.ifThenElse .eq 11 .zero (.reg 12))),
    .insn (set 10 (.xor 10 13)),
    .insn (set 10 (.zeroExtendHI (.reg 10))),
    .note]

/-- The insns of the block after the zicond peephole, with scratch 15. -/
def crcInsns : List Insn :=
  [.insn (set 13 (.zeroExtendHI (.reg 14))),
    .insn (set 15 (.zeroExtendHI (.reg 12))),
    .insn (set 10 (.ifThenElse .eq 11 .zero (.reg 15))),
    .insn (set 10 (.unspecCrc 10 13))]

theorem checkRegHoldsHiValue_crcBlock : ∃ ρ ρ' : RegFile 64,
    RewritesMany crcBlock (crcInsns ++ [.note]) ∧ Exec crcInsns ρ ρ' ∧
      checkRegHoldsHiValue crcInsns 10 = some true ∧ (ρ' 10).toNat < 2 ^ 16 := by
  have hun : Unmarked crcBlock := by
    intro p hp x y
    simp only [crcBlock, List.mem_cons, Insn.insn.injEq, reduceCtorEq, List.not_mem_nil,
      or_false] at hp
    rcases hp with rfl | rfl | rfl | rfl <;> exact Src.noConfusion
  have hread : NoClobberedRead crcBlock := by
    intro before p after he r _
    have hnone : ∀ l : List Insn, (∀ q, .insn q ∈ l → q.clobbers = []) → lastClobbered l r = false := by
      intro l hl
      induction l with
      | nil => rfl
      | cons i l ih =>
        have ih := ih (fun q hq => hl q (by simp [hq]))
        cases i with
        | note => exact ih
        | debug => exact ih
        | insn q => simp [lastClobbered, hl q (by simp), ih]
    apply hnone
    intro q hq
    have hq : .insn q ∈ crcBlock := by
      rw [he]
      exact List.mem_append_left _ (List.mem_reverse.mp hq)
    simp only [crcBlock, List.mem_cons, Insn.insn.injEq, reduceCtorEq, List.not_mem_nil,
      or_false] at hq
    rcases hq with rfl | rfl | rfl | rfl <;> rfl
  -- the peephole on the last three insns
  have hrw : RewritesMany crcBlock (crcInsns ++ [.note]) := by
    refine .single (.apply [.insn (set 13 (.zeroExtendHI (.reg 14)))]
      [.insn (set 10 (.ifThenElse .eq 11 .zero (.reg 12))), .insn (set 10 (.xor 10 13)),
        .insn (set 10 (.zeroExtendHI (.reg 10)))]
      [.insn (set 15 (.zeroExtendHI (.reg 12))),
        .insn (set 10 (.ifThenElse .eq 11 .zero (.reg 15))), .insn (set 10 (.unspecCrc 10 13))]
      [.note] ?_)
    exact .zicond 10 11 12 13 10 15 rfl (by decide)
  have hexec : ∃ ρ', Exec crcInsns (fun _ => (-1 : BitVec 64)) ρ' :=
    ⟨_, .cons (step_set ⟨_, rfl, rfl⟩) (.cons (step_set ⟨_, rfl, rfl⟩)
      (.cons (step_set rfl) (.cons (step_set rfl) (.nil _))))⟩
  obtain ⟨ρ', hexec⟩ := hexec
  have hsound := (checkRegHoldsHiValue_sound crcBlock (crcInsns ++ [.note]) crcInsns [] .note hun
    hread hrw rfl _ ρ' hexec).1
  exact ⟨_, ρ', hrw, hexec, by decide, hsound 10 (by decide) (by decide)⟩

/-- A register clobbered beside a zero extension of another: the check succeeds, and the register
    may hold anything. -/
theorem not_checkRegHoldsHiValue_clobbered : ¬ ∀ (block block' before after : List Insn) (cur : Insn),
    Unmarked block → NoClobberedRead block → RewritesMany block block' →
    block' = before ++ cur :: after → ∀ ρ ρ' : RegFile 64, Exec before ρ ρ' →
    ∀ r, checkRegHoldsHiValue before r = some true → (ρ' r).toNat < 2 ^ 16 := by
  intro h
  let p : Pattern := ⟨.reg 1, .zeroExtendHI (.reg 2), [3], []⟩
  have hun : Unmarked [.insn p, .note] := by
    intro q hq x y
    have hq : q = p := by simpa using hq
    rw [hq]
    exact Src.noConfusion
  have hread : NoClobberedRead [.insn p, .note] := by
    intro before q after he r _
    cases before with
    | nil => rfl
    | cons i before =>
      cases before with
      | nil => simp at he
      | cons j before => simp at he
  let ρ' : RegFile 64 := fun r => if r = 3 then 0x10000 else 0
  have hexec : Exec [.insn p] (fun _ => 0) ρ' := by
    refine .cons ⟨0, ⟨0, rfl, rfl⟩, ?_⟩ (.nil ρ')
    intro r hr
    have hr : r ≠ 3 := by simpa [p] using hr
    show (if r = 3 then (0x10000 : BitVec 64) else 0) = if p.dest = .reg r then 0 else 0
    rw [if_neg hr, ite_self]
  have hlt := h [.insn p, .note] [.insn p, .note] [.insn p] [] .note hun hread .refl rfl
    (fun _ => 0) ρ' hexec 3 (by decide)
  exact absurd hlt (by decide)

end Gcc
