import RiscvToolchain.Erratum.Templates

/- `build/verify-cloudbear-fix.sh`: its own test of the scan, the scan of every
   installed library, and the check that the libraries use the hardware square root.
   What the tools answer is given (`Host`); what the script makes of it is modelled
   with the text it prints, since the counts are read back from the last line of that.

   Correspondence (bash ↔ Lean):
     `scan_file`                        ↔ `scanFile`
     `$(…)`, `tail -n 1 <<<`            ↔ `captured`, `tailLine`
     `${counts% *}`, `${counts#* }`     ↔ `beforeLastSpace`, `afterFirstSpace`
     `[ … -lt … ]`, `[ … -ne 0 ]`       ↔ `lessThan`, `notZero`; a text that is no
                                          number fails the test
     `self_test`                        ↔ `selfTest`
     the loop over the files            ↔ `scanStep`
     the loop over the entries          ↔ `checkSqrt`
     the script                         ↔ `verify`, its output and its exit status;
                                          `checkLibraries` after the self-test
   A count is a number of lines of a listing and fits a machine word. -/
namespace Erratum
open Python

/-- What the script runs and finds. -/
structure Host where
  PREFIX : Str
  /-- The directory that `mktemp -d` made. -/
  tmp : Str
  executable : Str → Bool
  /-- `objdump -d --no-show-raw-insn`: the lines of the listing, or of the error. -/
  objdump : Str → Except (List Str) (List Str)
  /-- The compilation of the probe, without and with the flag: whether it succeeds, and the lines
      of its error output. -/
  compile : Bool → Bool × List Str
  /-- What `find … -print0 | sort -z` lists. -/
  found : List Str
  /-- `gcc -march=… -mabi=… -print-file-name=…`. -/
  printFileName : Str → Str → Str → Str
  /-- `objdump -d --no-show-raw-insn --disassemble=…`: what it prints, whatever its status. -/
  disassemble : Str → Str → List Str

def TUPLE : Str := "riscv32-unknown-elf".toList

def Host.GCC (h : Host) : Str := h.PREFIX ++ "/bin/".toList ++ TUPLE ++ "-gcc".toList

def Host.OBJDUMP (h : Host) : Str := h.PREFIX ++ "/bin/".toList ++ TUPLE ++ "-objdump".toList

/-! The words of the shell. -/

/-- `$(…)` of a command that prints these lines. -/
def captured (ls : List Str) : Str :=
  ((ls.flatMap (· ++ ['\n'])).reverse.dropWhile (· == '\n')).reverse

/-- `$(tail -n 1 <<<"$out")`. -/
def tailLine (out : Str) : Str := (split '\n' out).getLastD []

/-- `${s% *}`. -/
def beforeLastSpace (s : Str) : Str :=
  if ' ' ∈ s then ((s.reverse.dropWhile (· != ' ')).drop 1).reverse else s

/-- `${s#* }`. -/
def afterFirstSpace (s : Str) : Str :=
  if ' ' ∈ s then (s.dropWhile (· != ' ')).drop 1 else s

/-- A number as `[` reads it. -/
def integer (s : Str) : Option Nat := if s.all Char.isDigit then int s else none

/-- `[ "$s" -lt n ]`. -/
def lessThan (s : Str) (n : Nat) : Bool := (integer s).any (· < n)

/-- `[ "$s" -ne 0 ]`. -/
def notZero (s : Str) : Bool := (integer s).any (· != 0)

/-! The parts of the script. -/

/-- What `scan_file` prints, and whether it succeeds. -/
def scanFile (h : Host) (file : Str) : List Str × Bool :=
  match h.objdump file with
  | .error err => (("OBJDUMP FAIL ".toList ++ file) :: err, false)
  | .ok disasm => (scanLines file disasm, true)

def Host.probeNofix (h : Host) : Str := h.tmp ++ "/probe-nofix.o".toList

def Host.probeFix (h : Host) : Str := h.tmp ++ "/probe-fix.o".toList

def selfTest (h : Host) : List Str × Bool :=
  if !(h.compile false).1 then ("SELF-TEST COMPILE FAIL".toList :: (h.compile false).2, false)
  else if !(h.compile true).1 then
    ("SELF-TEST COMPILE FAIL".toList :: ((h.compile false).2 ++ (h.compile true).2), false)
  else
    let scan := scanFile h h.probeNofix
    if !scan.2 then ([], false)
    else
      let out := captured scan.1
      let counts := tailLine out
      if lessThan (beforeLastSpace counts) 4 || lessThan (afterFirstSpace counts) 4 then
        ("SELF-TEST FAIL: checker did not reject an object built without the flag".toList ::
          split '\n' out, false)
      else
        let scan := scanFile h h.probeFix
        if !scan.2 then ([], false)
        else
          let out := captured scan.1
          let counts := tailLine out
          if lessThan (beforeLastSpace counts) 4 || notZero (afterFirstSpace counts) then
            ("SELF-TEST FAIL: -mfix-cloudbear-0001 output was not accepted".toList ::
              split '\n' out, false)
          else
            (["self-test: OK (no-flag object rejected, flagged object accepted)".toList], true)

/-- The variables of the script's loops, and what was printed. -/
structure Totals where
  fail : Bool
  files : Nat
  totalChecked : Nat
  totalBad : Nat
  out : List Str
  deriving DecidableEq, Repr

/-- One turn of the loop over the files. -/
def scanStep (h : Host) (t : Totals) (file : Str) : Totals :=
  let t := { t with files := t.files + 1 }
  let scan := scanFile h file
  let out := captured scan.1
  if !scan.2 then { t with fail := true, out := t.out ++ split '\n' out }
  else
    let counts := tailLine out
    let checked := beforeLastSpace counts
    let bad := afterFirstSpace counts
    let t := { t with
      totalChecked := t.totalChecked + (integer checked).getD 0
      totalBad := t.totalBad + (integer bad).getD 0 }
    -- sed '$d' <<<"$out"
    if notZero bad then { t with fail := true, out := t.out ++ (split '\n' out).dropLast } else t

/-- The counts, and the test that something was counted. -/
def vacuous (t : Totals) : Totals :=
  let t := { t with out := t.out ++ [[], "files scanned:          ".toList ++ str t.files,
    "guarded instructions:   ".toList ++ str t.totalChecked,
    "missing nop:            ".toList ++ str t.totalBad] }
  if t.files = 0 ∨ t.totalChecked = 0 then
    { t with fail := true, out := t.out ++ ["FAIL: nothing was checked; the scan is vacuous".toList] }
  else t

/-- `[[:space:]]`. -/
def isSpace (c : Char) : Bool := c == ' ' || ('\t' ≤ c && c ≤ '\r')

/-- `[[:space:]]…[[:space:]]` at the start of the text. -/
def wordHere (word : Str) : Str → Bool
  | c :: s => isSpace c && startsWith word s && (s.drop word.length).head?.any isSpace
  | [] => false

/-- `grep -Eq "[[:space:]]${insn//./\\.}[[:space:]]"`. -/
def uses (insn : Str) (listing : List Str) : Bool :=
  listing.any fun line => line.tails.any (wordHere insn)

/-- `arch:abi:symbol:insn`. -/
def sqrtEntries : List Str :=
  ["rv32imafc:ilp32f:__ieee754_sqrtf:fsqrt.s".toList,
   "rv32imafdc:ilp32d:__ieee754_sqrtf:fsqrt.s".toList,
   "rv32imafdc:ilp32d:__ieee754_sqrt:fsqrt.d".toList,
   "rv32imafdcp:ilp32d:__ieee754_sqrtf:fsqrt.s".toList,
   "rv32imafdcp:ilp32d:__ieee754_sqrt:fsqrt.d".toList]

def sqrtLibs : List Str := ["libm.a".toList, "libm_nano.a".toList]

/-- One library of one entry. -/
def checkSqrt (h : Host) (t : Totals) (entry lib : Str) : Totals :=
  match split ':' entry with
  | [arch, abi, sym, insn] =>
    let path := h.printFileName arch abi lib
    let name := arch ++ "/".toList ++ abi ++ " ".toList ++ lib ++ " ".toList ++ sym
    if uses insn (h.disassemble sym path) then
      { t with out := t.out ++ ["  OK      ".toList ++ name ++ " uses ".toList ++ insn] }
    else
      { t with
        fail := true
        out := t.out ++ ["  MISSING ".toList ++ name ++ " does not use ".toList ++ insn] }
  | _ => t

/-- The pairs of the two nested loops. -/
def sqrtChecks : List (Str × Str) := sqrtEntries.flatMap fun entry => sqrtLibs.map (entry, ·)

def rule : Str := List.replicate 60 '='

/-- The three loops, after what was printed before them. -/
def checkLibraries (h : Host) (out : List Str) : Totals :=
  let t := vacuous (h.found.foldl (scanStep h) ⟨false, 0, 0, 0, out⟩)
  let heading := [[], "hardware sqrt in libm (arch:abi:symbol:insn):".toList]
  sqrtChecks.foldl (fun t c => checkSqrt h t c.1 c.2) { t with out := t.out ++ heading }

/-- What the script prints, and its exit status. -/
def verify (h : Host) : List Str × Nat :=
  match [h.GCC, h.OBJDUMP].find? (fun tool => !h.executable tool) with
  | some tool => (["ERROR: tool is missing:".toList, "  ".toList ++ tool], 2)
  | none =>
    let banner := [rule, "CLOUDBEAR 0001 ERRATUM WORKAROUND IN TARGET LIBRARIES".toList, rule]
    let test := selfTest h
    if !test.2 then (banner ++ test.1, 1)
    else
      let t := checkLibraries h (banner ++ test.1)
      let verdict :=
        if t.fail then "CLOUDBEAR 0001 VERIFICATION FAILED".toList
        else "CLOUDBEAR 0001 VERIFICATION PASSED".toList
      (t.out ++ [rule, verdict, rule], if t.fail then 1 else 0)

/-! The words on counts. -/

@[simp] theorem integer_str (n : Nat) : integer (str n) = some n := by
  have hall : (str n).all Char.isDigit = true :=
    List.all_eq_true.mpr fun c hc => isDigit_of_mem_str hc
  rw [integer, if_pos hall, int_str]

theorem split_flatMap_append (ls : List Str) {last : Str} (h : '\n' ∉ last) :
    (split '\n' (ls.flatMap (· ++ ['\n']) ++ last)).getLast? = some last := by
  induction ls with
  | nil => simp [split_of_not_mem h]
  | cons l ls ih =>
    have htext : (l :: ls).flatMap (· ++ ['\n']) ++ last =
        l ++ '\n' :: (ls.flatMap (· ++ ['\n']) ++ last) := by simp
    rw [htext, split_append_sep, List.getLast?_append_of_ne_nil _ (split_ne_nil _ _), ih]

theorem captured_concat (ls : List Str) {last : Str} (hne : last ≠ []) (h : '\n' ∉ last) :
    captured (ls ++ [last]) = ls.flatMap (· ++ ['\n']) ++ last := by
  have htext : (ls ++ [last]).flatMap (· ++ ['\n']) =
      (ls.flatMap (· ++ ['\n']) ++ last) ++ ['\n'] := by simp
  rw [captured, htext, List.reverse_append, List.reverse_singleton, List.singleton_append,
    List.dropWhile_cons_of_pos rfl]
  -- the text ends in the last character of `last`, which stays
  rcases List.eq_nil_or_concat last with rfl | ⟨init, c, rfl⟩
  · exact absurd rfl hne
  · have hc : c ≠ '\n' := by
      intro heq
      subst heq
      exact h (by simp)
    rw [List.concat_eq_append, ← List.append_assoc, List.reverse_append, List.reverse_singleton,
      List.singleton_append, List.dropWhile_cons_of_neg (by simpa using hc), List.reverse_cons,
      List.reverse_reverse]

theorem tailLine_captured (ls : List Str) {last : Str} (hne : last ≠ []) (h : '\n' ∉ last) :
    tailLine (captured (ls ++ [last])) = last := by
  rw [tailLine, captured_concat ls hne h, List.getLastD_eq_getLast?, split_flatMap_append ls h,
    Option.getD_some]

section Counts
variable (a b : Nat)

/-- The last line of a scan. -/
def countsText : Str := str a ++ " ".toList ++ str b

theorem countsText_eq : countsText a b = str a ++ ' ' :: str b := by
  simp [countsText]

theorem not_mem_countsText {c : Char} (hd : isdigit c = false) (hs : c ≠ ' ') :
    c ∉ countsText a b := by
  rw [countsText_eq, List.mem_append, List.mem_cons]
  intro h
  rcases h with h | h | h
  · exact not_mem_str hd a h
  · exact hs h
  · exact not_mem_str hd b h

theorem afterFirstSpace_counts : afterFirstSpace (countsText a b) = str b := by
  have hdrop : (countsText a b).dropWhile (· != ' ') = ' ' :: str b := by
    rw [countsText_eq, List.dropWhile_append_of_pos]
    · exact List.dropWhile_cons_of_neg (by simp)
    · intro c hc
      rw [bne_iff_ne]
      intro heq
      subst heq
      exact not_mem_str (by decide) a hc
  rw [afterFirstSpace, if_pos (by simp [countsText_eq]), hdrop, List.drop_one, List.tail_cons]

theorem beforeLastSpace_counts : beforeLastSpace (countsText a b) = str a := by
  have hdrop : (countsText a b).reverse.dropWhile (· != ' ') = ' ' :: (str a).reverse := by
    rw [countsText_eq, List.reverse_append, List.reverse_cons, List.append_assoc,
      List.dropWhile_append_of_pos]
    · exact List.dropWhile_cons_of_neg (by simp)
    · intro c hc
      rw [bne_iff_ne]
      intro heq
      subst heq
      exact not_mem_str (by decide) b (List.mem_reverse.mp hc)
  rw [beforeLastSpace, if_pos (by simp [countsText_eq]), hdrop, List.drop_one, List.tail_cons,
    List.reverse_reverse]

end Counts

/-! What the scan says of a listing. -/

/-- Every guarded instruction has a nop before it, over empty lines and elided bytes. -/
def AllNops (lines : List Line) : Prop :=
  ∀ pre l post, lines = pre ++ l :: post → l.isGuarded = true →
    beforeElided pre.reverse = some nop

theorem countBad_eq_zero_iff : ∀ lines before : List Line,
    countBad beforeElided before lines = 0 ↔
      ∀ pre l post, lines = pre ++ l :: post → l.isGuarded = true →
        beforeElided (pre.reverse ++ before) = some nop
  | [], before => by simp [countBad]
  | l :: lines, before => by
    have ih := countBad_eq_zero_iff lines (l :: before)
    have hhead : (if l.isGuarded && beforeElided before != some nop then 1 else 0) = 0 ↔
        (l.isGuarded = true → beforeElided before = some nop) := by
      by_cases hg : l.isGuarded = true
      · simp [hg]
      · simp [hg]
    rw [countBad, Nat.add_eq_zero_iff, hhead, ih]
    constructor
    · intro h pre x post hsplit hx
      obtain ⟨h₁, h₂⟩ := h
      cases pre with
      | nil =>
        cases hsplit
        exact h₁ hx
      | cons y pre =>
        cases hsplit
        simpa using h₂ pre x post rfl hx
    · intro h
      refine ⟨fun hg => h [] l lines rfl hg, ?_⟩
      intro pre x post hsplit hx
      simpa using h (l :: pre) x post (by rw [hsplit, List.cons_append]) hx

theorem allNops_iff (lines : List Line) : AllNops lines ↔ countBad beforeElided [] lines = 0 := by
  rw [countBad_eq_zero_iff, AllNops]
  simp only [List.append_nil]

/-- What `objdump` prints is a listing. -/
def Listings (h : Host) (listing : Str → List Line) : Prop :=
  ∀ file ls, h.objdump file = .ok ls →
    ls = (listing file).map Line.text ∧ ∀ l ∈ listing file, l.WF

def Disassembles (h : Host) (file : Str) : Prop := ∃ ls, h.objdump file = .ok ls

section Script
variable {h : Host} {listing : Str → List Line} (hlist : Listings h listing)

theorem scanFile_ok_iff (file : Str) : (scanFile h file).2 = true ↔ Disassembles h file := by
  rw [scanFile, Disassembles]
  cases h.objdump file with
  | error err => simp
  | ok ls => simp

include hlist in
theorem tailLine_scanFile {file : Str} (hd : Disassembles h file) :
    tailLine (captured (scanFile h file).1) =
      countsText (checkedSpec (listing file)) (countBad beforeElided [] (listing file)) := by
  obtain ⟨ls, hls⟩ := hd
  obtain ⟨rfl, hwf⟩ := hlist file ls hls
  have hlast := getLast_scanLines file hwf
  rw [scanFile, hls]
  dsimp only
  rw [← List.dropLast_append_getLast? _ hlast]
  refine tailLine_captured _ ?_ (not_mem_countsText _ _ (by decide) (by decide))
  simp

/-! The script. -/

theorem lessThan_str (n k : Nat) : lessThan (str n) k = decide (n < k) := by
  rw [lessThan, integer_str, Option.any_some]

theorem notZero_str (n : Nat) : notZero (str n) = decide (n ≠ 0) := by
  rw [notZero, integer_str, Option.any_some, decide_not]
  rfl

/-- The probe is compiled both ways, is rejected without the flag and accepted with it. -/
structure ProbePasses (h : Host) (listing : Str → List Line) : Prop where
  compiles : ∀ flag, (h.compile flag).1 = true
  disassembles : Disassembles h h.probeNofix ∧ Disassembles h h.probeFix
  rejected : 4 ≤ checkedSpec (listing h.probeNofix) ∧
    4 ≤ countBad beforeElided [] (listing h.probeNofix)
  accepted : 4 ≤ checkedSpec (listing h.probeFix) ∧ AllNops (listing h.probeFix)

theorem snd_if (c : Bool) (out : List Str) (rest : List Str × Bool) :
    (if c then (out, false) else rest).2 = (!c && rest.2) := by
  cases c <;> rfl

include hlist in
theorem selfTest_ok_iff : (selfTest h).2 = true ↔ ProbePasses h listing := by
  have hiff : ProbePasses h listing ↔ (h.compile false).1 = true ∧ (h.compile true).1 = true ∧
      Disassembles h h.probeNofix ∧ (4 ≤ checkedSpec (listing h.probeNofix) ∧
        4 ≤ countBad beforeElided [] (listing h.probeNofix)) ∧
      Disassembles h h.probeFix ∧ 4 ≤ checkedSpec (listing h.probeFix) ∧
        AllNops (listing h.probeFix) := by
    constructor
    · intro hp
      exact ⟨hp.compiles false, hp.compiles true, hp.disassembles.1, hp.rejected,
        hp.disassembles.2, hp.accepted⟩
    · intro ⟨hc₁, hc₂, hd₁, hr, hd₂, ha⟩
      exact ⟨fun flag => by cases flag; exacts [hc₁, hc₂], ⟨hd₁, hd₂⟩, hr, ha⟩
  rw [hiff, selfTest]
  simp only [snd_if, Bool.not_not, Bool.and_eq_true, and_true, scanFile_ok_iff]
  -- the two counts are those of the listing where there is one
  refine and_congr_right fun _ => and_congr_right fun _ => and_congr_right fun hd₁ => ?_
  refine and_congr ?_ (and_congr_right fun hd₂ => ?_)
  · rw [tailLine_scanFile hlist hd₁, beforeLastSpace_counts, afterFirstSpace_counts, lessThan_str,
      lessThan_str]
    simp
  · rw [tailLine_scanFile hlist hd₂, beforeLastSpace_counts, afterFirstSpace_counts, lessThan_str,
      notZero_str, allNops_iff]
    simp

theorem scanStep_files (t : Totals) (file : Str) : (scanStep h t file).files = t.files + 1 := by
  unfold scanStep
  dsimp only
  split
  · rfl
  · split
    · rfl
    · rfl

include hlist in
/-- A file fails the run when it cannot be read or lacks a nop. -/
theorem scanStep_fail (t : Totals) (file : Str) : (scanStep h t file).fail = true ↔
    t.fail = true ∨ ¬ (Disassembles h file ∧ AllNops (listing file)) := by
  unfold scanStep
  dsimp only
  by_cases hd : (scanFile h file).2 = true
  · have hdis := (scanFile_ok_iff file).mp hd
    rw [hd, tailLine_scanFile hlist hdis, afterFirstSpace_counts, notZero_str, allNops_iff]
    simp only [Bool.not_true, Bool.false_eq_true, if_false, decide_eq_true_eq]
    split
    · rename_i hbad
      simp [hbad]
    · rename_i hbad
      simp [not_not.mp hbad, hdis]
  · have hdis : ¬ Disassembles h file := fun hdis => hd ((scanFile_ok_iff file).mpr hdis)
    rw [Bool.not_eq_true] at hd
    simp [hd, hdis]

include hlist in
theorem scanStep_totalChecked (t : Totals) {file : Str} (hd : Disassembles h file) :
    (scanStep h t file).totalChecked = t.totalChecked + checkedSpec (listing file) := by
  have hok := (scanFile_ok_iff file).mpr hd
  unfold scanStep
  simp only [hok, tailLine_scanFile hlist hd, beforeLastSpace_counts, afterFirstSpace_counts,
    integer_str, Bool.not_true, Bool.false_eq_true, if_false, Option.getD_some]
  split
  · rfl
  · rfl

include hlist in
/-- By induction on the files: the loop fails when one of them does. -/
theorem foldl_scanStep_fail : ∀ (files : List Str) (t : Totals),
    (files.foldl (scanStep h) t).fail = true ↔
      t.fail = true ∨ ∃ file ∈ files, ¬ (Disassembles h file ∧ AllNops (listing file))
  | [], t => by simp
  | file :: files, t => by
    rw [List.foldl_cons, foldl_scanStep_fail files, scanStep_fail hlist, List.exists_mem_cons_iff,
      or_assoc]

include hlist in
theorem foldl_scanStep_totalChecked : ∀ (files : List Str) (t : Totals),
    (∀ file ∈ files, Disassembles h file) →
      (files.foldl (scanStep h) t).totalChecked =
        t.totalChecked + (files.map fun file => checkedSpec (listing file)).sum
  | [], t, _ => rfl
  | file :: files, t, hd => by
    rw [List.foldl_cons, foldl_scanStep_totalChecked files _ fun f hf => hd f (List.mem_cons_of_mem _ hf),
      scanStep_totalChecked hlist t (hd file List.mem_cons_self), List.map_cons, List.sum_cons]
    omega

theorem foldl_scanStep_files : ∀ (files : List Str) (t : Totals),
    (files.foldl (scanStep h) t).files = t.files + files.length
  | [], t => rfl
  | file :: files, t => by
    rw [List.foldl_cons, foldl_scanStep_files files, scanStep_files, List.length_cons]
    omega

theorem vacuous_fail (t : Totals) : (vacuous t).fail = true ↔
    t.fail = true ∨ t.files = 0 ∨ t.totalChecked = 0 := by
  unfold vacuous
  dsimp only
  split
  · rename_i hv
    simp [hv]
  · rename_i hv
    simp [hv]

/-- The library that the compiler selects has the instruction in the function. -/
def UsesSqrt (h : Host) (entry lib : Str) : Prop :=
  ∀ arch abi sym insn, split ':' entry = [arch, abi, sym, insn] →
    uses insn (h.disassemble sym (h.printFileName arch abi lib)) = true

theorem checkSqrt_fail (t : Totals) (entry lib : Str) : (checkSqrt h t entry lib).fail = true ↔
    t.fail = true ∨ ¬ UsesSqrt h entry lib := by
  unfold checkSqrt UsesSqrt
  split
  · rename_i arch abi sym insn heq
    rw [heq]
    dsimp only
    by_cases hu : uses insn (h.disassemble sym (h.printFileName arch abi lib)) = true
    · rw [if_pos hu]
      refine (or_iff_left (not_not_intro ?_)).symm
      intro arch' abi' sym' insn' h'
      cases h'
      exact hu
    · rw [if_neg hu]
      exact iff_of_true rfl (Or.inr fun h' => hu (h' arch abi sym insn rfl))
  · rename_i hne
    exact (or_iff_left (not_not_intro fun arch abi sym insn h' => absurd h' (hne arch abi sym insn))).symm

theorem foldl_checkSqrt_fail : ∀ (checks : List (Str × Str)) (t : Totals),
    (checks.foldl (fun t c => checkSqrt h t c.1 c.2) t).fail = true ↔
      t.fail = true ∨ ∃ c ∈ checks, ¬ UsesSqrt h c.1 c.2
  | [], t => by simp
  | c :: checks, t => by
    rw [List.foldl_cons, foldl_checkSqrt_fail checks, checkSqrt_fail, List.exists_mem_cons_iff,
      or_assoc]

def ToolsThere (h : Host) : Prop := h.executable h.GCC = true ∧ h.executable h.OBJDUMP = true

/-- What a passed verification says of the installed tree. -/
structure Passes (h : Host) (listing : Str → List Line) : Prop where
  tools : ToolsThere h
  probe : ProbePasses h listing
  files : ∀ file ∈ h.found, Disassembles h file ∧ AllNops (listing file)
  checked : ∃ file ∈ h.found, 0 < checkedSpec (listing file)
  sqrt : ∀ entry ∈ sqrtEntries, ∀ lib ∈ sqrtLibs, UsesSqrt h entry lib

theorem find_tool_eq_none_iff :
    [h.GCC, h.OBJDUMP].find? (fun tool => !h.executable tool) = none ↔ ToolsThere h := by
  simp [ToolsThere]

include hlist in
theorem checkLibraries_fail_iff (out : List Str) : (checkLibraries h out).fail = false ↔
    (∀ file ∈ h.found, Disassembles h file ∧ AllNops (listing file)) ∧
    (∃ file ∈ h.found, 0 < checkedSpec (listing file)) ∧
    ∀ entry ∈ sqrtEntries, ∀ lib ∈ sqrtLibs, UsesSqrt h entry lib := by
  have hsqrt : (¬ ∃ c ∈ sqrtChecks, ¬ UsesSqrt h c.1 c.2) ↔
      ∀ entry ∈ sqrtEntries, ∀ lib ∈ sqrtLibs, UsesSqrt h entry lib := by
    simp only [sqrtChecks, List.mem_flatMap, List.mem_map, not_exists, not_and, not_not]
    constructor
    · intro hall entry hentry lib hlib
      exact hall (entry, lib) ⟨entry, hentry, lib, hlib, rfl⟩
    · intro hall c h'
      obtain ⟨entry, hentry, lib, hlib, rfl⟩ := h'
      exact hall entry hentry lib hlib
  rw [← Bool.not_eq_true, checkLibraries, foldl_checkSqrt_fail, not_or, hsqrt, vacuous_fail,
    foldl_scanStep_fail hlist, foldl_scanStep_files]
  by_cases hfiles : ∀ file ∈ h.found, Disassembles h file ∧ AllNops (listing file)
  · rw [foldl_scanStep_totalChecked hlist _ _ fun file hf => (hfiles file hf).1]
    have hno : ¬ ∃ file ∈ h.found, ¬ (Disassembles h file ∧ AllNops (listing file)) := by
      rw [not_exists]
      exact fun file h' => h'.2 (hfiles file h'.1)
    have hsum : (h.found.map fun file => checkedSpec (listing file)).sum = 0 ↔
        ¬ ∃ file ∈ h.found, 0 < checkedSpec (listing file) := by
      rw [List.sum_eq_zero_iff]
      simp
    have hnil : h.found.length = 0 → ¬ ∃ file ∈ h.found, 0 < checkedSpec (listing file) := by
      intro hlen
      rw [List.length_eq_zero_iff.mp hlen]
      simp
    simp only [Nat.zero_add, hno, hsum, Bool.false_eq_true, false_or, not_or, not_not]
    constructor
    · intro h'
      exact ⟨hfiles, h'.1.2, h'.2⟩
    · intro h'
      exact ⟨⟨fun hlen => hnil hlen h'.2.1, h'.2.1⟩, h'.2.2⟩
  · have hsome : ∃ file ∈ h.found, ¬ (Disassembles h file ∧ AllNops (listing file)) := by
      simpa only [not_forall, exists_prop] using hfiles
    simp only [hsome, hfiles, or_true, true_or, not_true, false_and]

end Script

/-! An installed tree of one library. -/

def fourProbes (flag : Bool) : List Line :=
  probeLines flag ++ probeLines flag ++ probeLines flag ++ probeLines flag

def libc : Str := "/opt/riscv/riscv32-unknown-elf/lib/libc.a".toList

def sdkListing (file : Str) : List Line := fourProbes (file != "/tmp/t/probe-nofix.o".toList)

def sdk : Host where
  PREFIX := "/opt/riscv".toList
  tmp := "/tmp/t".toList
  executable := fun _ => true
  objdump := fun file => .ok ((sdkListing file).map Line.text)
  compile := fun _ => (true, [])
  found := [libc]
  printFileName := fun _ _ lib => "/opt/riscv/riscv32-unknown-elf/lib/".toList ++ lib
  disassemble := fun _ _ =>
    ["   4:\tfsqrt.s\tfa0,fa0".toList, "   4:\tfsqrt.d\tfa0,fa0".toList]

theorem sdk_listings : Listings sdk sdkListing := by
  intro file ls hls
  cases hls
  refine ⟨rfl, ?_⟩
  intro l hl
  have hwf : ∀ l ∈ probeLines (file != "/tmp/t/probe-nofix.o".toList), l.WF := (shows_probe _).wf
  simp only [sdkListing, fourProbes, List.mem_append, or_self] at hl
  exact hwf l hl

end Erratum
