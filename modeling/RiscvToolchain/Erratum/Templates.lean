import RiscvToolchain.Erratum.ScanFile

/- The compiler's half of the workaround, `-mfix-cloudbear-0001` of
   `patch/riscv-gcc.patch`, and what the checker says of the code it emits. The
   templates stand behind a `nop` in one string literal; without the flag the macro
   steps over its five characters.

   Correspondence (patch ↔ Lean):
     `ADD_NOP_FOR_CB_0001_ERRATUM`            ↔ the same name
     the `define_insn`s with the macro        ↔ `Pattern`, `Pattern.template`
     `<insn>` of `any_div`, `<fmt>` of `ANYF` ↔ `AnyDiv.insn`, `ANYF.fmt`
     `output_asm_insn`, the modifier `%i`     ↔ `outputAsmInsn`
   The assembler and the disassembler keep the order of the instructions and their
   mnemonics (`Shows`); the addresses and the operands of the listing are free. -/
namespace Erratum
open Python

/-- The codes of the iterator `any_div`. -/
inductive AnyDiv where
  | div | udiv | mod | umod
  deriving DecidableEq, Repr

def AnyDiv.insn : AnyDiv → Str
  | .div => "div".toList
  | .udiv => "divu".toList
  | .mod => "rem".toList
  | .umod => "remu".toList

/-- The modes of the iterator `ANYF`. -/
inductive ANYF where
  | HF | SF | DF
  deriving DecidableEq, Repr

def ANYF.fmt : ANYF → Str
  | .HF => ['h']
  | .SF => ['s']
  | .DF => ['d']

/-- The instruction patterns whose output goes through the macro. -/
inductive Pattern where
  | clmul
  | clmulh
  | clmulr
  /-- `<optab>si3` -/
  | anyDiv (code : AnyDiv)
  /-- `div<mode>3` -/
  | div (mode : ANYF)
  /-- `sqrt<mode>2` -/
  | sqrt (mode : ANYF)
  deriving DecidableEq, Repr

/-- The argument of the macro. -/
def Pattern.template : Pattern → Str
  | .clmul => "clmul\t%0,%1,%2".toList
  | .clmulh => "clmulh\t%0,%1,%2".toList
  | .clmulr => "clmulr\t%0,%1,%2".toList
  | .anyDiv code => code.insn ++ "%i2\t%0,%1,%2".toList
  | .div mode => "fdiv.".toList ++ mode.fmt ++ "\t%0,%1,%2".toList
  | .sqrt mode => "fsqrt.".toList ++ mode.fmt ++ "\t%0,%1".toList

/-- A pointer into one string literal. -/
def ADD_NOP_FOR_CB_0001_ERRATUM (TARGET_CB_ERRATUM_0001 : Bool) (outTemplate : Str) : Str :=
  ("nop\n\t".toList ++ outTemplate).drop (if TARGET_CB_ERRATUM_0001 then 0 else 5)

/-- The operands of an instruction, by their numbers. -/
structure Operand where
  text : Str
  /-- `REG_P` of the operand. -/
  isReg : Bool

abbrev Operands := Nat → Operand

def digitOf (c : Char) : Nat := c.toNat - '0'.toNat

/-- The characters of a template, with the operands in place. -/
def substitute (operands : Operands) : Str → Str
  | '%' :: 'i' :: d :: s =>
    (if (operands (digitOf d)).isReg then [] else ['i']) ++ substitute operands s
  | '%' :: d :: s => (operands (digitOf d)).text ++ substitute operands s
  | c :: s => c :: substitute operands s
  | [] => []

/-- What is written for one instruction. -/
def outputAsmInsn (template : Str) (operands : Operands) : Str :=
  '\t' :: substitute operands template ++ ['\n']

/-- The assembler lines of a pattern. -/
def Pattern.emit (flag : Bool) (p : Pattern) (operands : Operands) : List Str :=
  (split '\n' (outputAsmInsn (ADD_NOP_FOR_CB_0001_ERRATUM flag p.template) operands)).dropLast

/-- The mnemonic of an assembler line. -/
def statement (line : Str) : Str := (line.dropWhile isBlank).takeWhile fun c => !isBlank c

/-- The mnemonic of the instruction that the pattern is for. -/
def Pattern.mnemonic : Pattern → Str
  | .clmul => "clmul".toList
  | .clmulh => "clmulh".toList
  | .clmulr => "clmulr".toList
  | .anyDiv code => code.insn
  | .div mode => "fdiv.".toList ++ mode.fmt
  | .sqrt mode => "fsqrt.".toList ++ mode.fmt

/-- Registers, as `register_operand` admits them: their names stay on their line. -/
def Registers (operands : Operands) : Prop :=
  ∀ n, (operands n).isReg = true ∧ '\n' ∉ (operands n).text

/-! What a template writes. -/

theorem macro_flag (template : Str) :
    ADD_NOP_FOR_CB_0001_ERRATUM true template = "nop\n\t".toList ++ template := rfl

theorem macro_no_flag (template : Str) :
    ADD_NOP_FOR_CB_0001_ERRATUM false template = template := rfl

theorem substitute_append {operands : Operands} {a : Str} (ha : '%' ∉ a) (s : Str) :
    substitute operands (a ++ s) = a ++ substitute operands s := by
  induction a with
  | nil => rfl
  | cons c a ih =>
    simp only [List.mem_cons, not_or] at ha
    rw [List.cons_append, List.cons_append, ← ih ha.2]
    rw [substitute.eq_def]
    split
    · rename_i heq
      exact absurd (List.cons.inj heq).1.symm ha.1
    · rename_i heq
      exact absurd (List.cons.inj heq).1.symm ha.1
    · rename_i heq
      cases heq
      rfl
    · rename_i heq
      cases heq

/-- What stands behind the mnemonic. -/
def Pattern.operandsPart : Pattern → Str
  | .clmul | .clmulh | .clmulr | .div _ => ['\t', '%', '0', ',', '%', '1', ',', '%', '2']
  | .anyDiv _ => ['%', 'i', '2', '\t', '%', '0', ',', '%', '1', ',', '%', '2']
  | .sqrt _ => ['\t', '%', '0', ',', '%', '1']

theorem Pattern.template_eq (p : Pattern) : p.template = p.mnemonic ++ p.operandsPart := by
  cases p with
  | clmul => rfl
  | clmulh => rfl
  | clmulr => rfl
  | anyDiv code => rfl
  | div mode => rfl
  | sqrt mode => rfl

/-- The mnemonics are those of the list, and the two of half precision. -/
theorem Pattern.mnemonic_mem (p : Pattern) :
    p.mnemonic ∈ ["fdiv.h".toList, "fsqrt.h".toList] ++ guarded := by
  cases p with
  | clmul => decide
  | clmulh => decide
  | clmulr => decide
  | anyDiv code => cases code <;> decide
  | div mode => cases mode <;> decide
  | sqrt mode => cases mode <;> decide

theorem Pattern.mnemonic_plain (p : Pattern) : ∀ c ∈ p.mnemonic,
    isBlank c = false ∧ c ≠ ':' ∧ c ≠ '\n' ∧ c ≠ '%' := by
  have hall : (["fdiv.h".toList, "fsqrt.h".toList] ++ guarded).all (fun m => m.all fun c =>
      !isBlank c && c != ':' && c != '\n' && c != '%') = true := by decide
  intro c hc
  have h := List.all_eq_true.mp (List.all_eq_true.mp hall p.mnemonic p.mnemonic_mem) c hc
  simpa [and_assoc] using h

theorem substitute_cons {operands : Operands} {c : Char} (hc : c ≠ '%') (s : Str) :
    substitute operands (c :: s) = c :: substitute operands s :=
  substitute_append (a := [c]) (by simpa using hc.symm) s

theorem substitute_percent {operands : Operands} {d : Char} (hd : d ≠ 'i') (s : Str) :
    substitute operands ('%' :: d :: s) =
      (operands (digitOf d)).text ++ substitute operands s := by
  rw [substitute]
  intro _ _ h
  exact absurd h hd

theorem substitute_percent_i (operands : Operands) (d : Char) (s : Str) :
    substitute operands ('%' :: 'i' :: d :: s) =
      (if (operands (digitOf d)).isReg then [] else ['i']) ++ substitute operands s := by
  rw [substitute]

section Emit
variable {operands : Operands} (hregs : Registers operands)

theorem substitute_three (operands : Operands) :
    substitute operands ['\t', '%', '0', ',', '%', '1', ',', '%', '2'] =
      '\t' :: ((operands 0).text ++ ',' :: ((operands 1).text ++ ',' ::
        ((operands 2).text ++ []))) := by
  simp (disch := decide) only [substitute_cons, substitute_percent]
  rfl

include hregs in
/-- The operands of every pattern are behind a tab, on the line of the mnemonic. -/
theorem substitute_operandsPart (p : Pattern) :
    ∃ rest, '\n' ∉ rest ∧ substitute operands p.operandsPart = '\t' :: rest := by
  have htext : ∀ n, '\n' ∉ (operands n).text := fun n => (hregs n).2
  -- two operands or three, between commas
  have htwo : '\n' ∉ (operands 0).text ++ ',' :: ((operands 1).text ++ []) := by simp [htext]
  have hthree : '\n' ∉ (operands 0).text ++ ',' :: ((operands 1).text ++ ',' ::
      ((operands 2).text ++ [])) := by simp [htext]
  cases p with
  | clmul => exact ⟨_, hthree, substitute_three operands⟩
  | clmulh => exact ⟨_, hthree, substitute_three operands⟩
  | clmulr => exact ⟨_, hthree, substitute_three operands⟩
  | anyDiv code =>
    refine ⟨_, hthree, ?_⟩
    rw [Pattern.operandsPart, substitute_percent_i, if_pos (hregs _).1, List.nil_append]
    exact substitute_three operands
  | div mode => exact ⟨_, hthree, substitute_three operands⟩
  | sqrt mode =>
    refine ⟨_, htwo, ?_⟩
    simp (disch := decide) only [Pattern.operandsPart, substitute_cons, substitute_percent]
    rfl

include hregs in
/-- With the flag a pattern gives a `nop` and its instruction, without it the instruction. -/
theorem map_statement_emit (flag : Bool) (p : Pattern) :
    (p.emit flag operands).map statement =
      (if flag then [nop] else []) ++ [p.mnemonic] := by
  obtain ⟨rest, hrest, hops⟩ := substitute_operandsPart hregs p
  have hplain := p.mnemonic_plain
  have htemplate : substitute operands p.template = p.mnemonic ++ '\t' :: rest := by
    rw [p.template_eq, substitute_append (fun hc => (hplain _ hc).2.2.2 rfl), hops]
  have hline : '\n' ∉ '\t' :: (p.mnemonic ++ '\t' :: rest) := by
    simp only [List.mem_cons, List.mem_append, not_or]
    refine ⟨by decide, fun hc => (hplain _ hc).2.2.1 rfl, by decide, hrest⟩
  have hstatement : statement ('\t' :: (p.mnemonic ++ '\t' :: rest)) = p.mnemonic := by
    have hhead : (p.mnemonic ++ '\t' :: rest).dropWhile isBlank = p.mnemonic ++ '\t' :: rest := by
      cases hm : p.mnemonic with
      | nil =>
        have := p.mnemonic_mem
        rw [hm] at this
        exact absurd this (by decide)
      | cons c m =>
        rw [List.cons_append]
        refine List.dropWhile_cons_of_neg ?_
        rw [(hplain c (hm ▸ List.mem_cons_self)).1]
        exact Bool.false_ne_true
    rw [statement, List.dropWhile_cons_of_pos rfl, hhead, List.takeWhile_append_of_pos,
      List.takeWhile_cons_of_neg (by decide), List.append_nil]
    intro c hc
    rw [(hplain c hc).1]
    rfl
  cases flag with
  | false =>
    have htext : outputAsmInsn (ADD_NOP_FOR_CB_0001_ERRATUM false p.template) operands =
        ('\t' :: (p.mnemonic ++ '\t' :: rest)) ++ '\n' :: [] := by
      rw [macro_no_flag, outputAsmInsn, htemplate]
    rw [Pattern.emit, htext, split_append hline]
    simp [split, hstatement]
  | true =>
    have htext : outputAsmInsn (ADD_NOP_FOR_CB_0001_ERRATUM true p.template) operands =
        ('\t' :: nop) ++ '\n' :: (('\t' :: (p.mnemonic ++ '\t' :: rest)) ++ '\n' :: []) := by
      rw [macro_flag, outputAsmInsn, substitute_append (by decide), htemplate]
      simp [nop]
    have hnop : statement ('\t' :: nop) = nop := by decide
    rw [Pattern.emit, htext, split_append (by decide), split_append hline]
    simp [split, hstatement, hnop]

end Emit

/-! The listing of what was emitted. -/

inductive Item where
  /-- A line with no guarded instruction. -/
  | other (l : Line)
  | insn (p : Pattern) (operands : Operands)

/-- The scan is to count it. -/
def Item.checked : Item → Bool
  | .other _ => false
  | .insn p _ => p.mnemonic ∈ guarded

/-- The lines show the items in their order, a pattern by one line for each of its instructions. -/
inductive Shows (flag : Bool) : List Item → List Line → Prop where
  | nil : Shows flag [] []
  | other {l : Line} {items : List Item} {lines : List Line} : l.WF → l.isGuarded = false →
      Shows flag items lines → Shows flag (.other l :: items) (l :: lines)
  | insn {p : Pattern} {operands : Operands} {own : List Line} {items : List Item}
      {lines : List Line} : Registers operands → (∀ l ∈ own, l.WF) →
      own.map Line.mnemonic? = ((p.emit flag operands).map statement).map some →
      Shows flag items lines → Shows flag (.insn p operands :: items) (own ++ lines)

theorem isGuarded_of_mnemonic {l : Line} {m : Str} (h : l.mnemonic? = some m) :
    l.isGuarded = decide (m ∈ guarded) := by
  cases l with
  | insn indent addr mnemonic operands =>
    cases h
    rfl
  | _ => cases h

theorem beforeElided_cons_of_mnemonic {l : Line} {m : Str} (h : l.mnemonic? = some m)
    (before : List Line) : beforeElided (l :: before) = some m := by
  rw [beforeElided_cons]
  cases l with
  | insn indent addr mnemonic operands => exact h
  | _ => cases h

theorem beforeElided_ne {before : List Line} (h : ∀ l ∈ before, l.mnemonic? ≠ some nop) :
    beforeElided before ≠ some nop := by
  induction before with
  | nil => exact nofun
  | cons l before ih =>
    rw [beforeElided_cons]
    split
    · exact ih fun l' h' => h l' (List.mem_cons_of_mem l h')
    · exact h l List.mem_cons_self

/-- The two instructions of a pattern under the flag. -/
theorem own_flag {p : Pattern} {operands : Operands} {own : List Line} (hregs : Registers operands)
    (h : own.map Line.mnemonic? = ((p.emit true operands).map statement).map some) :
    ∃ l₁ l₂, own = [l₁, l₂] ∧ l₁.mnemonic? = some nop ∧ l₂.mnemonic? = some p.mnemonic := by
  rw [map_statement_emit hregs] at h
  match own with
  | [l₁, l₂] => exact ⟨l₁, l₂, rfl, by simpa using h⟩
  | [] => simp at h
  | [_] => simp at h
  | _ :: _ :: _ :: _ => simp at h

theorem own_no_flag {p : Pattern} {operands : Operands} {own : List Line}
    (hregs : Registers operands)
    (h : own.map Line.mnemonic? = ((p.emit false operands).map statement).map some) :
    ∃ l, own = [l] ∧ l.mnemonic? = some p.mnemonic := by
  rw [map_statement_emit hregs] at h
  match own with
  | [l] => exact ⟨l, rfl, by simpa using h⟩
  | [] => simp at h
  | _ :: _ :: _ => simp at h

theorem Shows.wf {flag : Bool} {items : List Item} {lines : List Line} (h : Shows flag items lines) :
    ∀ l ∈ lines, l.WF := by
  induction h with
  | nil => simp
  | other hwf _ _ ih =>
    intro l hl
    rcases List.mem_cons.mp hl with rfl | hl
    · exact hwf
    · exact ih l hl
  | insn _ hwf _ _ ih =>
    intro l hl
    rcases List.mem_append.mp hl with hl | hl
    · exact hwf l hl
    · exact ih l hl

theorem nop_not_guarded : decide (nop ∈ guarded) = false := by decide

/-- Every guarded instruction is one of a pattern's. -/
theorem Shows.checked {flag : Bool} {items : List Item} {lines : List Line}
    (h : Shows flag items lines) : checkedSpec lines = items.countP Item.checked := by
  induction h with
  | nil => rfl
  | other _ hg _ ih =>
    rw [checkedSpec] at ih ⊢
    rw [List.countP_cons_of_neg (by simp [hg]), List.countP_cons_of_neg (by simp [Item.checked]), ih]
  | @insn p operands own items lines hregs _ hown _ ih =>
    have hcount : own.countP Line.isGuarded = if p.mnemonic ∈ guarded then 1 else 0 := by
      cases flag with
      | true =>
        obtain ⟨l₁, l₂, rfl, h₁, h₂⟩ := own_flag hregs hown
        simp [isGuarded_of_mnemonic h₁, isGuarded_of_mnemonic h₂, nop_not_guarded, List.countP_cons]
      | false =>
        obtain ⟨l, rfl, hl⟩ := own_no_flag hregs hown
        simp [isGuarded_of_mnemonic hl, List.countP_cons]
    rw [checkedSpec] at ih ⊢
    rw [List.countP_append, hcount, ih, List.countP_cons, Nat.add_comm]
    simp [Item.checked]

/-- With the flag every guarded instruction has its nop. -/
theorem Shows.countBad_flag {items : List Item} {lines : List Line} (h : Shows true items lines) :
    ∀ before, countBad beforeElided before lines = 0 := by
  induction h with
  | nil => exact fun _ => rfl
  | other _ hg _ ih =>
    intro before
    rw [countBad, hg, ih]
    rfl
  | @insn p operands own items lines hregs _ hown _ ih =>
    intro before
    obtain ⟨l₁, l₂, rfl, h₁, h₂⟩ := own_flag hregs hown
    show countBad beforeElided before (l₁ :: l₂ :: lines) = 0
    rw [countBad, countBad, ih, isGuarded_of_mnemonic h₁, nop_not_guarded,
      beforeElided_cons_of_mnemonic h₁]
    simp

/-- Without it, and without a nop by other means, none has. -/
theorem Shows.countBad_no_flag {items : List Item} {lines : List Line}
    (h : Shows false items lines) :
    ∀ before, (∀ l ∈ before, l.mnemonic? ≠ some nop) →
      (∀ l, Item.other l ∈ items → l.mnemonic? ≠ some nop) →
      countBad beforeElided before lines = items.countP Item.checked := by
  induction h with
  | nil => exact fun _ _ _ => rfl
  | @other l items lines _ hg _ ih =>
    intro before hbefore hnop
    have hl : ∀ l' ∈ l :: before, l'.mnemonic? ≠ some nop := by
      intro l' hl'
      rcases List.mem_cons.mp hl' with rfl | hl'
      · exact hnop _ List.mem_cons_self
      · exact hbefore l' hl'
    rw [countBad, hg, ih _ hl fun l' h' => hnop l' (List.mem_cons_of_mem _ h'),
      List.countP_cons_of_neg (by simp [Item.checked])]
    simp
  | @insn p operands own items lines hregs _ hown _ ih =>
    intro before hbefore hnop
    obtain ⟨l, rfl, hl⟩ := own_no_flag hregs hown
    have hne : p.mnemonic ≠ nop := by
      have hmem := p.mnemonic_mem
      intro heq
      rw [heq] at hmem
      exact absurd hmem (by decide)
    have hbefore' : ∀ l' ∈ l :: before, l'.mnemonic? ≠ some nop := by
      intro l' hl'
      rcases List.mem_cons.mp hl' with rfl | hl'
      · rw [hl]
        exact fun h => hne (Option.some.inj h)
      · exact hbefore l' hl'
    rw [List.singleton_append, countBad, isGuarded_of_mnemonic hl,
      bne_iff_ne.mpr (beforeElided_ne hbefore), Bool.and_true,
      ih _ hbefore' fun l' h' => hnop l' (List.mem_cons_of_mem _ h'), List.countP_cons,
      Nat.add_comm]
    simp [Item.checked]

theorem Shows.bad {flag : Bool} {items : List Item} {lines : List Line} (h : Shows flag items lines)
    (hnop : flag = false → ∀ l, Item.other l ∈ items → l.mnemonic? ≠ some nop) :
    countBad beforeElided [] lines = if flag then 0 else items.countP Item.checked := by
  cases flag with
  | true => exact h.countBad_flag []
  | false => exact h.countBad_no_flag [] (by simp) (hnop rfl)

/-- The counts the scan prints. -/
theorem getLast_scanLines (file : Str) {lines : List Line} (hwf : ∀ l ∈ lines, l.WF) :
    (scanLines file (lines.map Line.text)).getLast? =
      some (str (checkedSpec lines) ++ " ".toList ++ str (countBad beforeElided [] lines)) := by
  obtain ⟨hc, hb⟩ := foldl_scanLine file lines [] Scan.begin hwf (by decide)
  rw [scanLines, List.getLast?_append, hc, hb]
  simp [Scan.begin]

def probeOperands : Operands := fun n => ⟨if n = 2 then "a1".toList else "a0".toList, true⟩

def probeItems : List Item :=
  [.other (.label "00000000".toList "probe_div".toList), .insn (.anyDiv .div) probeOperands,
    .other (.insn 3 "8".toList "ret".toList none)]

def probeLines (flag : Bool) : List Line :=
  (.label "00000000".toList "probe_div".toList) ::
    (((if flag then [Line.insn 3 "0".toList nop none] else []) ++
      [Line.insn 3 "4".toList "div".toList (some "a0,a0,a1".toList)]) ++
      [Line.insn 3 "8".toList "ret".toList none])

theorem wf_insn {addr mnemonic : Str} {operands : Option Str} (indent : Nat)
    (haddr : (!addr.isEmpty && addr.all isHex) = true)
    (hm : (mnemonic.all fun c => !isBlank c && c != ':') = true)
    (hops : ∀ ops ∈ operands, ':' ∉ ops) : (Line.insn indent addr mnemonic operands).WF := by
  rw [Bool.and_eq_true, Bool.not_eq_true', List.isEmpty_eq_false_iff] at haddr
  refine ⟨⟨haddr.1, List.all_eq_true.mp haddr.2⟩, ?_, fun _ => hops⟩
  intro c hc
  simpa using List.all_eq_true.mp hm c hc

theorem shows_probe (flag : Bool) : Shows flag probeItems (probeLines flag) := by
  have hregs : Registers probeOperands := by
    intro n
    refine ⟨rfl, ?_⟩
    rw [probeOperands]
    split <;> decide
  refine .other ⟨by decide, List.all_eq_true.mp (by decide)⟩ rfl ?_
  refine .insn hregs ?_ ?_ (.other (wf_insn 3 (by decide) (by decide) (by simp)) (by decide) .nil)
  · intro l hl
    have hdiv : (Line.insn 3 "4".toList "div".toList (some "a0,a0,a1".toList)).WF :=
      wf_insn 3 (by decide) (by decide) (by simp)
    cases flag with
    | false =>
      obtain rfl := List.mem_singleton.mp hl
      exact hdiv
    | true =>
      rcases List.mem_cons.mp hl with rfl | hl
      · exact wf_insn 3 (by decide) (by decide) (by simp)
      · obtain rfl := List.mem_singleton.mp hl
        exact hdiv
  · rw [map_statement_emit hregs]
    cases flag <;> rfl

end Erratum
