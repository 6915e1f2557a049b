import RiscvToolchain.Python.Str

/- The awk program of `scan_file` in `build/verify-cloudbear-fix.sh`, over the lines
   of a disassembly.

   Correspondence (awk ↔ Lean):
     the variables                    ↔ `Scan`; `out` is what was printed
     `guarded`                        ↔ `guarded`
     the four patterns                ↔ `isFileFormat`, `isLabel`, `isSection`, `isInsn`
     the rules, in order              ↔ `scanLine`: a rule with `next` ends the record
     `split($0, field, "\t")`         ↔ `Python.split`
     the whole program                ↔ `scanLines`
   A regular expression here is a run of one character class after another, each
   followed by a character outside it, so matching it needs no search but for the
   place where the unanchored first pattern starts. -/
namespace Erratum
open Python

def guarded : List Str :=
  ["div".toList, "divu".toList, "rem".toList, "remu".toList, "fdiv.s".toList, "fdiv.d".toList,
    "fsqrt.s".toList, "fsqrt.d".toList, "clmul".toList, "clmulh".toList, "clmulr".toList]

def nop : Str := "nop".toList

/-- `[ \t]`. -/
def isBlank (c : Char) : Bool := c == ' ' || c == '\t'

/-- `[0-9a-f]`. -/
def isHex (c : Char) : Bool := ('0' ≤ c && c ≤ '9') || ('a' ≤ c && c ≤ 'f')

/-- `:[ \t]+file format `, at the start of the text. -/
def fileFormatHere : Str → Bool
  | ':' :: c :: s => isBlank c && startsWith "file format ".toList (s.dropWhile isBlank)
  | _ => false

/-- `/:[ \t]+file format /`. -/
def isFileFormat (s : Str) : Bool := s.tails.any fileFormatHere

/-- `/^[0-9a-f]+ <.*>:$/`. -/
def isLabel (s : Str) : Bool :=
  !(s.takeWhile isHex).isEmpty && startsWith " <".toList (s.dropWhile isHex) &&
    ">:".toList.isSuffixOf ((s.dropWhile isHex).drop 2)

/-- `/^Disassembly of section /`. -/
def isSection (s : Str) : Bool := startsWith "Disassembly of section ".toList s

/-- `/^[ \t]*[0-9a-f]+:\t/`. -/
def isInsn (s : Str) : Bool :=
  !((s.dropWhile isBlank).takeWhile isHex).isEmpty &&
    startsWith ":\t".toList ((s.dropWhile isBlank).dropWhile isHex)

/-- The fields `$1`, `$2`, … of a record. -/
def fields (s : Str) : List Str := (s.splitOnP isBlank).filter (fun w => !w.isEmpty)

structure Scan where
  checked : Nat
  bad : Nat
  member : Str
  fn : Str
  prev : Str
  out : List Str
  deriving DecidableEq, Repr

/-- The `BEGIN` rule. -/
def Scan.begin : Scan := ⟨0, 0, [], [], [], []⟩

/-- `sub(/:$/, "", member)`. -/
def dropColon (s : Str) : Str := if [':'].isSuffixOf s then s.dropLast else s

/-- `field[2]` without trailing blanks and without what follows a blank. -/
def mnemonicOf (field : Str) : Str :=
  (field.reverse.dropWhile isBlank).reverse.takeWhile (fun c => !isBlank c)

def missingNop (file : Str) (st : Scan) (addr insn : Str) : Str :=
  "  MISSING NOP ".toList ++ file ++ "(".toList ++ st.member ++ ") ".toList ++ st.fn ++
    "+0x".toList ++ addr ++ ": ".toList ++ insn ++ " after ".toList ++
    if st.prev.isEmpty then "<start>".toList else st.prev

/-- The body of the last rule. -/
def scanInsn (file : Str) (st : Scan) (line : Str) : Scan :=
  match split '\t' line with
  | field1 :: field2 :: _ =>
    let insn := mnemonicOf field2
    if insn ∈ guarded then
      if st.prev ≠ nop then
        let addr := field1.filter (fun c => !(isBlank c || c == ':'))
        { st with
          checked := st.checked + 1
          bad := st.bad + 1
          out := st.out ++ [missingNop file st addr insn]
          prev := insn }
      else { st with checked := st.checked + 1, prev := insn }
    else { st with prev := insn }
  | _ => st

def scanLine (file : Str) (st : Scan) (line : Str) : Scan :=
  if isFileFormat line then
    { st with member := dropColon ((fields line).getD 0 []), prev := [] }
  else if isLabel line then { st with fn := (fields line).getD 1 [], prev := [] }
  else if isSection line then { st with prev := [] }
  else if isInsn line then scanInsn file st line
  else st

/-- The printed lines; the last is that of the `END` rule. -/
def scanLines (file : Str) (lines : List Str) : List Str :=
  let st := lines.foldl (scanLine file) Scan.begin
  st.out ++ [str st.checked ++ " ".toList ++ str st.bad]

/-! The listings `objdump -d --no-show-raw-insn` prints. -/

inductive Line where
  /-- `In archive libgcc.a:` -/
  | inArchive (name : Str)
  /-- `member:     file format elf32-littleriscv` -/
  | fileFormat (member format : Str)
  /-- `Disassembly of section .text:` -/
  | inSection (name : Str)
  /-- `00010074 <main>:` -/
  | label (addr name : Str)
  /-- `   10078:<TAB>mnemonic<TAB>operands`, with the address set in by spaces -/
  | insn (indent : Nat) (addr mnemonic : Str) (operands : Option Str)
  /-- `<TAB>...`, for a run of zero bytes -/
  | elided
  | blank (spaces : Str)
  deriving DecidableEq, Repr

def Line.text : Line → Str
  | .inArchive name => "In archive ".toList ++ name ++ ":".toList
  | .fileFormat member format => member ++ ":     file format ".toList ++ format
  | .inSection name => "Disassembly of section ".toList ++ name ++ ":".toList
  | .label addr name => addr ++ " <".toList ++ name ++ ">:".toList
  | .insn indent addr mnemonic operands =>
    List.replicate indent ' ' ++ addr ++ ":\t".toList ++ mnemonic ++
      match operands with
      | none => []
      | some ops => '\t' :: ops
  | .elided => "\t...".toList
  | .blank spaces => spaces

def IsAddr (s : Str) : Prop := s ≠ [] ∧ ∀ c ∈ s, isHex c = true

/-- The form of a line. The names of members, sections and symbols are any text, and so are
    operands; only the operands of a `nop` and of a guarded instruction, which are registers and a
    rounding mode, have no colon. -/
def Line.WF : Line → Prop
  | .inArchive name => ':' ∉ name
  | .fileFormat _ _ | .inSection _ | .elided => True
  | .label addr _ => IsAddr addr
  | .insn _ addr mnemonic operands =>
    IsAddr addr ∧ (∀ c ∈ mnemonic, isBlank c = false ∧ c ≠ ':') ∧
      (mnemonic = nop ∨ mnemonic ∈ guarded → ∀ ops ∈ operands, ':' ∉ ops)
  | .blank spaces => ∀ c ∈ spaces, isBlank c = true

/-! What the scan is to count. -/

def Line.isGuarded : Line → Bool
  | .insn _ _ mnemonic _ => mnemonic ∈ guarded
  | _ => false

/-- A line that stands for no bytes and opens nothing. -/
def Line.isEmptyLine : Line → Bool
  | .blank _ | .inArchive _ => true
  | _ => false

def Line.mnemonic? : Line → Option Str
  | .insn _ _ mnemonic _ => some mnemonic
  | _ => none

/-- The instruction directly before, in memory: that of the nearest line that is not empty, if it
    is an instruction line. The lines before stand with the nearest first. -/
def directlyBefore (before : List Line) : Option Str :=
  (before.dropWhile Line.isEmptyLine).head? >>= Line.mnemonic?

def checkedSpec (lines : List Line) : Nat := lines.countP Line.isGuarded

/-- The guarded instructions with another instruction than a nop before them, or none. -/
def countBad (instructionBefore : List Line → Option Str) : List Line → List Line → Nat
  | _, [] => 0
  | before, l :: rest =>
    (if l.isGuarded && instructionBefore before != some nop then 1 else 0) +
      countBad instructionBefore (l :: before) rest

def badSpec (lines : List Line) : Nat := countBad directlyBefore [] lines

/-- The last line the scan prints is the two counts. -/
def ScanExact (file : Str) (lines : List Line) : Prop :=
  (scanLines file (lines.map Line.text)).getLast? =
    some (str (checkedSpec lines) ++ " ".toList ++ str (badSpec lines))

/-- The instruction before, over empty lines and elided bytes alike. -/
def beforeElided (before : List Line) : Option Str :=
  (before.dropWhile fun l => l.isEmptyLine || l == .elided).head? >>= Line.mnemonic?

/-- No guarded instruction is divided from a nop before it by elided bytes. -/
def NoElidedNop (lines : List Line) : Prop :=
  ∀ pre l post, lines = pre ++ l :: post → l.isGuarded = true →
    beforeElided pre.reverse = some nop → directlyBefore pre.reverse = some nop

/-! The patterns on the lines of a listing. -/

theorem isFileFormat_nil : isFileFormat [] = false := by decide

theorem isFileFormat_cons (c : Char) (s : Str) :
    isFileFormat (c :: s) = (fileFormatHere (c :: s) || isFileFormat s) := by
  rw [isFileFormat, List.tails_cons, List.any_cons]
  rfl

theorem fileFormatHere_cons_of_ne {c : Char} (h : c ≠ ':') (s : Str) :
    fileFormatHere (c :: s) = false := by
  unfold fileFormatHere
  split
  · rename_i heq
    exact absurd (List.cons.inj heq).1 h
  · rfl

/-- The first pattern starts at a colon. -/
theorem isFileFormat_append {a : Str} (ha : ':' ∉ a) (s : Str) :
    isFileFormat (a ++ s) = isFileFormat s := by
  induction a with
  | nil => rfl
  | cons c a ih =>
    simp only [List.mem_cons, not_or] at ha
    rw [List.cons_append, isFileFormat_cons, fileFormatHere_cons_of_ne (Ne.symm ha.1), ih ha.2,
      Bool.false_or]

theorem isFileFormat_of_not_mem {s : Str} (h : ':' ∉ s) : isFileFormat s = false := by
  have := isFileFormat_append h []
  rwa [List.append_nil, isFileFormat_nil] at this

theorem isFileFormat_append_right (a : Str) {s : Str} (h : isFileFormat s = true) :
    isFileFormat (a ++ s) = true := by
  induction a with
  | nil => exact h
  | cons c a ih => rw [List.cons_append, isFileFormat_cons, ih, Bool.or_true]

theorem isFileFormat_header (member format : Str) :
    isFileFormat (Line.fileFormat member format).text = true := by
  have htext : (Line.fileFormat member format).text =
      member ++ (":     file format ".toList ++ format) := List.append_assoc _ _ _
  rw [htext]
  apply isFileFormat_append_right
  simp [isFileFormat_cons, fileFormatHere, isBlank, startsWith]

theorem isHex_ne_colon {c : Char} (h : isHex c = true) : c ≠ ':' := by
  intro heq
  subst heq
  revert h
  decide

theorem isHex_not_isBlank {c : Char} (h : isHex c = true) : isBlank c = false := by
  by_contra hb
  rw [Bool.not_eq_false, isBlank, Bool.or_eq_true, beq_iff_eq, beq_iff_eq] at hb
  rcases hb with rfl | rfl <;> revert h <;> decide

theorem takeWhile_addr {addr s : Str} {c : Char} (h : IsAddr addr) (hc : isHex c = false) :
    (addr ++ c :: s).takeWhile isHex = addr ∧ (addr ++ c :: s).dropWhile isHex = c :: s := by
  constructor
  · rw [List.takeWhile_append_of_pos h.2, List.takeWhile_cons_of_neg (by simp [hc]),
      List.append_nil]
  · rw [List.dropWhile_append_of_pos h.2, List.dropWhile_cons_of_neg (by simp [hc])]

theorem isLabel_label {addr : Str} (h : IsAddr addr) (name : Str) :
    isLabel (Line.label addr name).text = true := by
  have htext : (Line.label addr name).text = addr ++ ' ' :: '<' :: (name ++ ">:".toList) := by
    show addr ++ " <".toList ++ name ++ ">:".toList = _
    simp
  have hsplit := takeWhile_addr (c := ' ') (s := '<' :: (name ++ ">:".toList)) h (by decide)
  have hne : addr.isEmpty = false := by simpa using h.1
  rw [htext, isLabel, hsplit.1, hsplit.2, hne]
  simp [startsWith]

theorem isLabel_cons_of_not_isHex {c : Char} (h : isHex c = false) (s : Str) :
    isLabel (c :: s) = false := by
  simp [isLabel, h]

theorem isInsn_cons {c : Char} (hb : isBlank c = false) (hx : isHex c = false) (s : Str) :
    isInsn (c :: s) = false := by
  simp [isInsn, hb, hx]

/-- The text of an instruction line, from the colon on. -/
def insnTail (mnemonic : Str) (operands : Option Str) : Str :=
  mnemonic ++ operands.elim [] ('\t' :: ·)

theorem text_insn (indent : Nat) (addr mnemonic : Str) (operands : Option Str) :
    (Line.insn indent addr mnemonic operands).text =
      List.replicate indent ' ' ++ (addr ++ ':' :: '\t' :: insnTail mnemonic operands) := by
  cases operands with
  | none =>
    show List.replicate indent ' ' ++ addr ++ ":\t".toList ++ mnemonic ++ [] = _
    simp [insnTail]
  | some ops =>
    show List.replicate indent ' ' ++ addr ++ ":\t".toList ++ mnemonic ++ '\t' :: ops = _
    simp [insnTail]

/-- The mnemonics of the list, and `nop`, do not start as `file format` does. -/
theorem startsWith_fileFormat {mnemonic : Str} (h : mnemonic = nop ∨ mnemonic ∈ guarded) (t : Str) :
    isBlank (mnemonic.headD ' ') = false ∧
      startsWith "file format ".toList (mnemonic ++ t) = false := by
  simp only [guarded, nop, List.mem_cons, List.not_mem_nil, or_false] at h
  rcases h with rfl | rfl | rfl | rfl | rfl | rfl | rfl | rfl | rfl | rfl | rfl | rfl <;>
    simp [startsWith, isBlank, List.isPrefixOf]

section Insn
variable {indent : Nat} {addr mnemonic : Str} {operands : Option Str} (haddr : IsAddr addr)
  (hm : ∀ c ∈ mnemonic, isBlank c = false ∧ c ≠ ':')

include haddr hm in
theorem isFileFormat_insn (h : mnemonic = nop ∨ mnemonic ∈ guarded)
    (hops : ∀ ops ∈ operands, ':' ∉ ops) :
    isFileFormat (Line.insn indent addr mnemonic operands).text = false := by
  have hfront : ':' ∉ List.replicate indent ' ' ++ addr := by
    rw [List.mem_append, not_or]
    constructor
    · intro hc
      exact absurd (List.eq_of_mem_replicate hc) (by decide)
    · intro hc
      exact isHex_ne_colon (haddr.2 _ hc) rfl
  have htail : ':' ∉ insnTail mnemonic operands := by
    rw [insnTail, List.mem_append, not_or]
    refine ⟨fun hc => (hm _ hc).2 rfl, ?_⟩
    cases operands with
    | none => simp
    | some ops => simpa using hops ops rfl
  have hhere : fileFormatHere (':' :: '\t' :: insnTail mnemonic operands) = false := by
    obtain ⟨hhead, hstart⟩ := startsWith_fileFormat h (operands.elim [] ('\t' :: ·))
    have hdrop : (insnTail mnemonic operands).dropWhile isBlank = insnTail mnemonic operands := by
      rw [insnTail]
      cases mnemonic with
      | nil => cases hhead
      | cons c m => exact List.dropWhile_cons_of_neg (by simpa using hhead)
    rw [fileFormatHere, hdrop, insnTail, hstart, Bool.and_false]
  rw [text_insn, ← List.append_assoc, isFileFormat_append hfront, isFileFormat_cons, hhere,
    isFileFormat_of_not_mem]
  · rfl
  · simpa using htail

include haddr in
theorem isLabel_insn : isLabel (Line.insn indent addr mnemonic operands).text = false := by
  rw [text_insn]
  cases indent with
  | zero =>
    rw [List.replicate_zero, List.nil_append, isLabel, (takeWhile_addr haddr (by decide)).2]
    simp [startsWith]
  | succ n => exact isLabel_cons_of_not_isHex (by decide) _

include haddr in
theorem isInsn_insn : isInsn (Line.insn indent addr mnemonic operands).text = true := by
  have hdrop : (Line.insn indent addr mnemonic operands).text.dropWhile isBlank =
      addr ++ ':' :: '\t' :: insnTail mnemonic operands := by
    rw [text_insn, List.dropWhile_append_of_pos]
    · obtain ⟨c, a, rfl⟩ := List.exists_cons_of_ne_nil haddr.1
      have hc := isHex_not_isBlank (haddr.2 c List.mem_cons_self)
      rw [List.cons_append, List.dropWhile_cons_of_neg (by simp [hc])]
    · intro c hc
      rw [List.eq_of_mem_replicate hc]
      rfl
  obtain ⟨htake, hrest⟩ := takeWhile_addr (s := '\t' :: insnTail mnemonic operands) haddr
    (show isHex ':' = false by decide)
  have hne : addr.isEmpty = false := by simpa using haddr.1
  rw [isInsn, hdrop, htake, hrest, hne]
  simp [startsWith]

include haddr hm in
theorem split_insn : ∃ rest, split '\t' (Line.insn indent addr mnemonic operands).text =
    (List.replicate indent ' ' ++ (addr ++ [':'])) :: mnemonic :: rest := by
  have hfront : '\t' ∉ List.replicate indent ' ' ++ (addr ++ [':']) := by
    simp only [List.mem_append, List.mem_singleton, not_or]
    refine ⟨fun hc => absurd (List.eq_of_mem_replicate hc) (by decide), fun hc => ?_, by decide⟩
    have := isHex_not_isBlank (haddr.2 _ hc)
    revert this
    decide
  have hmn : '\t' ∉ mnemonic := by
    intro hc
    have := (hm _ hc).1
    revert this
    decide
  have htext : (Line.insn indent addr mnemonic operands).text =
      (List.replicate indent ' ' ++ (addr ++ [':'])) ++ '\t' :: insnTail mnemonic operands := by
    rw [text_insn]
    simp
  rw [htext, split_append hfront, insnTail]
  cases operands with
  | none => exact ⟨[], by simp [split_of_not_mem hmn]⟩
  | some ops => exact ⟨split '\t' ops, by rw [Option.elim, split_append hmn]⟩

include hm in
theorem mnemonicOf_mnemonic : mnemonicOf mnemonic = mnemonic := by
  have hrev : mnemonic.reverse.dropWhile isBlank = mnemonic.reverse := by
    cases h : mnemonic.reverse with
    | nil => rfl
    | cons c m =>
      have hc : c ∈ mnemonic := List.mem_reverse.mp (by rw [h]; exact List.mem_cons_self)
      exact List.dropWhile_cons_of_neg (by simp [(hm c hc).1])
  rw [mnemonicOf, hrev, List.reverse_reverse, List.takeWhile_eq_self_iff]
  intro c hc
  simp [(hm c hc).1]

end Insn

/-! One line. -/

section Step
variable {file : Str} {st : Scan} {l : Line}

/-- What one record does to the counts and to the instruction before. -/
structure StepOf (st st' : Scan) (l : Line) : Prop where
  checked : st'.checked = st.checked + if l.isGuarded then 1 else 0
  bad : st'.bad = st.bad + if l.isGuarded && st.prev != nop then 1 else 0
  prev : st'.prev = nop ↔
    if l.isEmptyLine || l == .elided then st.prev = nop else l.mnemonic? = some nop

/-- A line of no rule. -/
theorem stepOf_idle (h₁ : isFileFormat l.text = false) (h₂ : isLabel l.text = false)
    (h₃ : isSection l.text = false) (h₄ : isInsn l.text = false)
    (hl : (l.isEmptyLine || l == .elided) = true) (hg : l.isGuarded = false) :
    StepOf st (scanLine file st l.text) l := by
  have hrun : scanLine file st l.text = st := by simp [scanLine, h₁, h₂, h₃, h₄]
  rw [hrun]
  constructor
  · simp [hg]
  · simp [hg]
  · simp [hl]

/-- A line that opens a member, a section or a symbol, by whichever of the first three rules. -/
theorem stepOf_opens (h : isFileFormat l.text = true ∨ isLabel l.text = true ∨
    isSection l.text = true) (hl : (l.isEmptyLine || l == .elided) = false)
    (hg : l.isGuarded = false) (hm : l.mnemonic? ≠ some nop) :
    StepOf st (scanLine file st l.text) l := by
  have hrun : (scanLine file st l.text).checked = st.checked ∧
      (scanLine file st l.text).bad = st.bad ∧ (scanLine file st l.text).prev = [] := by
    unfold scanLine
    split
    · exact ⟨rfl, rfl, rfl⟩
    · split
      · exact ⟨rfl, rfl, rfl⟩
      · split
        · exact ⟨rfl, rfl, rfl⟩
        · simp_all
  obtain ⟨hc, hb, hp⟩ := hrun
  constructor
  · simp [hc, hg]
  · simp [hb, hg]
  · rw [hp, hl, if_neg Bool.false_ne_true]
    exact iff_of_false (by decide) hm

theorem isSection_of_head {c : Char} (h : c ≠ 'D') (s : Str) : isSection (c :: s) = false := by
  simp [isSection, startsWith, List.isPrefixOf, Ne.symm h]

section Insn
variable {indent : Nat} {addr mnemonic : Str} {operands : Option Str}

theorem isSection_insn (haddr : IsAddr addr) :
    isSection (Line.insn indent addr mnemonic operands).text = false := by
  rw [text_insn]
  cases indent with
  | zero =>
    obtain ⟨c, a, rfl⟩ := List.exists_cons_of_ne_nil haddr.1
    refine isSection_of_head ?_ _
    intro heq
    subst heq
    have := haddr.2 'D' List.mem_cons_self
    revert this
    decide
  | succ n => exact isSection_of_head (by decide) _

/-- The last rule on an instruction line. -/
theorem stepOf_scanInsn (haddr : IsAddr addr)
    (hm : ∀ c ∈ mnemonic, isBlank c = false ∧ c ≠ ':') :
    StepOf st (scanInsn file st (Line.insn indent addr mnemonic operands).text)
      (.insn indent addr mnemonic operands) := by
  obtain ⟨rest, hsplit⟩ : ∃ rest, split '\t' (Line.insn indent addr mnemonic operands).text =
      (List.replicate indent ' ' ++ (addr ++ [':'])) :: mnemonic :: rest := split_insn haddr hm
  rw [scanInsn, hsplit]
  simp only [mnemonicOf_mnemonic hm]
  by_cases hg : mnemonic ∈ guarded
  · rw [if_pos hg]
    by_cases hp : st.prev = nop
    · rw [if_neg (not_not_intro hp)]
      constructor <;> simp [Line.isGuarded, hg, hp, Line.isEmptyLine, Line.mnemonic?]
    · rw [if_pos hp]
      constructor <;> simp [Line.isGuarded, hg, hp, Line.isEmptyLine, Line.mnemonic?]
  · rw [if_neg hg]
    constructor <;> simp [Line.isGuarded, hg, Line.isEmptyLine, Line.mnemonic?]

theorem stepOf_insn (hwf : (Line.insn indent addr mnemonic operands).WF) :
    StepOf st (scanLine file st (Line.insn indent addr mnemonic operands).text)
      (.insn indent addr mnemonic operands) := by
  obtain ⟨haddr, hm, hops⟩ := hwf
  by_cases hff : isFileFormat (Line.insn indent addr mnemonic operands).text = true
  · -- the operands name something with `: file format ` in it: neither a nop nor guarded
    have hno : ¬ (mnemonic = nop ∨ mnemonic ∈ guarded) := by
      intro h
      rw [isFileFormat_insn haddr hm h (hops h)] at hff
      cases hff
    rw [not_or] at hno
    exact stepOf_opens (Or.inl hff) rfl (by simp [Line.isGuarded, hno.2])
      (by simp [Line.mnemonic?, hno.1])
  · have hrun : scanLine file st (Line.insn indent addr mnemonic operands).text =
        scanInsn file st (Line.insn indent addr mnemonic operands).text := by
      simp [scanLine, hff, isLabel_insn haddr, isSection_insn haddr, isInsn_insn haddr]
    rw [hrun]
    exact stepOf_scanInsn haddr hm

end Insn

theorem isInsn_of_blank {s : Str} (h : ∀ c ∈ s, isBlank c = true) : isInsn s = false := by
  have hdrop : s.dropWhile isBlank = [] := by simpa using h
  simp [isInsn, hdrop]

theorem stepOf_scanLine (hwf : l.WF) : StepOf st (scanLine file st l.text) l := by
  cases l with
  | inArchive name =>
    have hwf : ':' ∉ name := hwf
    have htext : (Line.inArchive name).text = 'I' :: ("n archive ".toList ++ name ++ ":".toList) := by
      show "In archive ".toList ++ name ++ ":".toList = _
      simp
    have hff : isFileFormat (Line.inArchive name).text = false := by
      show isFileFormat ("In archive ".toList ++ name ++ ":".toList) = false
      rw [isFileFormat_append]
      · decide
      · simpa using hwf
    refine stepOf_idle hff ?_ ?_ ?_ rfl rfl
    · rw [htext]
      exact isLabel_cons_of_not_isHex (by decide) _
    · rw [htext]
      exact isSection_of_head (by decide) _
    · rw [htext]
      exact isInsn_cons (by decide) (by decide) _
  | fileFormat member format =>
    exact stepOf_opens (Or.inl (isFileFormat_header member format)) rfl rfl (by simp [Line.mnemonic?])
  | inSection name =>
    refine stepOf_opens (Or.inr (Or.inr ?_)) rfl rfl (by simp [Line.mnemonic?])
    show startsWith _ ("Disassembly of section ".toList ++ name ++ ":".toList) = true
    rw [List.append_assoc]
    exact startsWith_append _ _
  | label addr name =>
    exact stepOf_opens (Or.inr (Or.inl (isLabel_label hwf name))) rfl rfl (by simp [Line.mnemonic?])
  | insn indent addr mnemonic operands => exact stepOf_insn hwf
  | elided => exact stepOf_idle (by decide) (by decide) (by decide) (by decide) rfl rfl
  | blank spaces =>
    have hwf : ∀ c ∈ spaces, isBlank c = true := hwf
    have hff : isFileFormat spaces = false :=
      isFileFormat_of_not_mem fun hc => absurd (hwf _ hc) (by decide)
    have hrest : isLabel spaces = false ∧ isSection spaces = false := by
      cases spaces with
      | nil => decide
      | cons c s =>
        have hc := hwf c List.mem_cons_self
        constructor
        · refine isLabel_cons_of_not_isHex ?_ s
          by_contra hx
          rw [isHex_not_isBlank (by simpa using hx)] at hc
          cases hc
        · refine isSection_of_head ?_ s
          intro heq
          subst heq
          revert hc
          decide
    -- no test of the scan holds of a line without a character
    exact stepOf_idle hff hrest.1 hrest.2 (isInsn_of_blank hwf) rfl rfl

end Step

/-! The whole listing. -/

theorem directlyBefore_cons (l : Line) (before : List Line) :
    directlyBefore (l :: before) =
      if l.isEmptyLine then directlyBefore before else l.mnemonic? := by
  rw [directlyBefore, List.dropWhile_cons]
  split
  · rfl
  · rfl

theorem beforeElided_cons (l : Line) (before : List Line) :
    beforeElided (l :: before) =
      if l.isEmptyLine || l == .elided then beforeElided before else l.mnemonic? := by
  rw [beforeElided, List.dropWhile_cons]
  split
  · rfl
  · rfl

/-- By induction on the lines: the scan remembers the instruction before over empty lines and
    elided bytes alike. -/
theorem foldl_scanLine (file : Str) : ∀ (lines before : List Line) (st : Scan),
    (∀ l ∈ lines, l.WF) → (st.prev = nop ↔ beforeElided before = some nop) →
    ((lines.map Line.text).foldl (scanLine file) st).checked = st.checked + checkedSpec lines ∧
      ((lines.map Line.text).foldl (scanLine file) st).bad =
        st.bad + countBad beforeElided before lines
  | [], _, _, _, _ => ⟨rfl, rfl⟩
  | l :: lines, before, st, hwf, hprev => by
    have hstep : StepOf st (scanLine file st l.text) l := stepOf_scanLine (hwf l List.mem_cons_self)
    have hnext : (scanLine file st l.text).prev = nop ↔ beforeElided (l :: before) = some nop := by
      rw [hstep.prev, beforeElided_cons]
      split
      · exact hprev
      · rfl
    obtain ⟨hc, hb⟩ := foldl_scanLine file lines (l :: before) (scanLine file st l.text)
      (fun x hx => hwf x (List.mem_cons_of_mem l hx)) hnext
    -- the count of this line asks about the scan's memory of the lines before
    have hbool : (st.prev != nop) = (beforeElided before != some nop) := by
      by_cases h : st.prev = nop
      · simp [h, hprev.mp h]
      · have h' : beforeElided before ≠ some nop := fun h' => h (hprev.mpr h')
        rw [bne_iff_ne.mpr h, bne_iff_ne.mpr h']
    rw [List.map_cons, List.foldl_cons]
    constructor
    · rw [hc, hstep.checked, checkedSpec, checkedSpec, List.countP_cons]
      omega
    · rw [hb, hstep.bad, countBad, hbool]
      omega

theorem beforeElided_of_directlyBefore (before : List Line) (h : directlyBefore before = some nop) :
    beforeElided before = some nop := by
  induction before with
  | nil => cases h
  | cons l before ih =>
    rw [directlyBefore_cons] at h
    rw [beforeElided_cons]
    by_cases he : l.isEmptyLine = true
    · rw [if_pos he] at h
      simp [he, ih h]
    · rw [if_neg he] at h
      have hne : l ≠ .elided := by
        intro heq
        subst heq
        cases h
      simpa [he, hne] using h

theorem countBad_head_le (l : Line) (before : List Line) :
    (if l.isGuarded && beforeElided before != some nop then 1 else 0) ≤
      if l.isGuarded && directlyBefore before != some nop then 1 else 0 := by
  by_cases hd : directlyBefore before = some nop
  · simp [hd, beforeElided_of_directlyBefore before hd]
  · rw [bne_iff_ne.mpr hd, Bool.and_true]
    split <;> split <;> simp_all

theorem countBad_head_eq_iff (l : Line) (before : List Line) :
    ((if l.isGuarded && beforeElided before != some nop then 1 else 0) =
      if l.isGuarded && directlyBefore before != some nop then 1 else 0) ↔
      (l.isGuarded = true → beforeElided before = some nop → directlyBefore before = some nop) := by
  by_cases hg : l.isGuarded = true
  · by_cases he : beforeElided before = some nop
    · by_cases hd : directlyBefore before = some nop
      · simp [hg, he, hd]
      · rw [bne_iff_ne.mpr hd, hg, he]
        simp [hd]
    · have hd : directlyBefore before ≠ some nop :=
        fun hd => he (beforeElided_of_directlyBefore before hd)
      rw [bne_iff_ne.mpr hd, bne_iff_ne.mpr he]
      exact iff_of_true rfl (fun _ h => absurd h he)
  · simp [hg]

/-- Over elided bytes the scan can only miss a violation, and it misses one at each guarded
    instruction that elided bytes divide from a nop. -/
theorem countBad_beforeElided : ∀ (lines before : List Line),
    countBad beforeElided before lines ≤ countBad directlyBefore before lines ∧
    (countBad beforeElided before lines = countBad directlyBefore before lines ↔
      ∀ pre l post, lines = pre ++ l :: post → l.isGuarded = true →
        beforeElided (pre.reverse ++ before) = some nop →
        directlyBefore (pre.reverse ++ before) = some nop)
  | [], before => by simp [countBad]
  | l :: lines, before => by
    obtain ⟨hle, hiff⟩ := countBad_beforeElided lines (l :: before)
    have hhead := countBad_head_le l before
    have hheadiff := countBad_head_eq_iff l before
    simp only [countBad]
    refine ⟨Nat.add_le_add hhead hle, ?_⟩
    constructor
    · -- two sums with parts in order are equal where both parts are
      intro heq pre x post hsplit
      cases pre with
      | nil =>
        rw [List.nil_append] at hsplit
        cases hsplit
        exact hheadiff.mp (by omega)
      | cons y pre =>
        rw [List.cons_append] at hsplit
        cases hsplit
        have := hiff.mp (by omega) pre x post rfl
        simpa using this
    · intro h
      have h₁ := hheadiff.mpr (h [] l lines rfl)
      have h₂ := hiff.mpr (fun pre x post hsplit => by
        have := h (l :: pre) x post (by rw [hsplit, List.cons_append])
        simpa using this)
      rw [h₁, h₂]

theorem not_mem_str {c : Char} (h : isdigit c = false) (n : Nat) : c ∉ str n := by
  intro hc
  rw [isdigit_of_mem_str hc] at h
  cases h

theorem str_inj {m n : Nat} (h : str m = str n) : m = n := by
  have := congrArg int h
  rw [int_str, int_str] at this
  exact Option.some.inj this

theorem counts_inj {c b c' b' : Nat}
    (h : str c ++ " ".toList ++ str b = str c' ++ " ".toList ++ str b') : c = c' ∧ b = b' := by
  have hno := not_mem_str (show isdigit ' ' = false by decide)
  have h := congrArg (split ' ') (show str c ++ ' ' :: str b = str c' ++ ' ' :: str b' by simpa using h)
  rw [split_append (hno c), split_append (hno c'), split_of_not_mem (hno b),
    split_of_not_mem (hno b')] at h
  simp only [List.cons.injEq, and_true] at h
  exact ⟨str_inj h.1, str_inj h.2⟩

theorem scanExact_iff_counts (file : Str) {lines : List Line} (hwf : ∀ l ∈ lines, l.WF) :
    ScanExact file lines ↔ countBad beforeElided [] lines = badSpec lines := by
  obtain ⟨hc, hb⟩ := foldl_scanLine file lines [] Scan.begin hwf (by decide)
  have hc : ((lines.map Line.text).foldl (scanLine file) Scan.begin).checked = checkedSpec lines := by
    rw [hc]
    exact Nat.zero_add _
  have hb : ((lines.map Line.text).foldl (scanLine file) Scan.begin).bad =
      countBad beforeElided [] lines := by
    rw [hb]
    exact Nat.zero_add _
  rw [ScanExact, scanLines, List.getLast?_append, hc, hb]
  constructor
  · intro h
    exact (counts_inj (Option.some.inj h)).2
  · intro h
    rw [h]
    rfl

/-- The scan counts exactly, but for elided bytes: the rules have none for a `...` line, so
    the instruction before the gap is taken for the one before the instruction after it. -/
theorem scan_exact_iff (file : Str) {lines : List Line} (hwf : ∀ l ∈ lines, l.WF) :
    ScanExact file lines ↔ NoElidedNop lines := by
  rw [scanExact_iff_counts file hwf, badSpec, (countBad_beforeElided lines []).2, NoElidedNop]
  simp only [List.append_nil]

/-- A member with one symbol, the nop and what stands behind it. -/
def listing (gap : List Line) : List Line :=
  [.fileFormat "a.o".toList "elf32-littleriscv".toList, .blank [], .inSection ".text".toList,
    .label "00000000".toList "f".toList, .insn 3 "0".toList nop none] ++
    gap ++ [.insn 2 "14".toList "div".toList (some "a0,a0,a1".toList)]

theorem listing_wf {gap : List Line} (h : ∀ l ∈ gap, l.WF) : ∀ l ∈ listing gap, l.WF := by
  intro l hl
  simp only [listing, List.mem_append, List.mem_cons, List.not_mem_nil, or_false] at hl
  rcases hl with (((rfl | rfl | rfl | rfl | rfl) | hl) | rfl)
  · trivial
  · exact fun c hc => nomatch hc
  · trivial
  · exact ⟨by decide, List.all_eq_true.mp (by decide)⟩
  · exact ⟨⟨by decide, List.all_eq_true.mp (by decide)⟩, by simp [nop, isBlank], fun _ => by simp⟩
  · exact h l hl
  · exact ⟨⟨by decide, List.all_eq_true.mp (by decide)⟩, by simp [isBlank], fun _ => by simp⟩

theorem scan_exact_blank_gap : ScanExact "libgcc.a".toList (listing [.blank []]) :=
  (scan_exact_iff _ (listing_wf (by simp [Line.WF]))).mpr (by
    have h := (countBad_beforeElided (listing [.blank []]) []).2.mp (by decide)
    simpa [NoElidedNop] using h)

/-- Sixteen zero bytes between the nop and the division, and the scan counts no violation. -/
theorem not_scan_exact : ¬ ScanExact "libgcc.a".toList (listing [.elided]) := by
  rw [scanExact_iff_counts _ (listing_wf (by simp [Line.WF]))]
  decide

end Erratum
