import RiscvToolchain.Python.Dict
import RiscvToolchain.Python.TextFile
import RiscvToolchain.ArchString.Arch

/- `scripts/testsuite-filter`: the gate over the DejaGnu results.

   Correspondence (Python ↔ Lean):
     `get_white_list_files`  ↔ `getWhiteListFiles`, the names it tries `whiteListNames`
     `read_white_lists`      ↔ `readWhiteLists`, one line `whiteListLine`
     `read_sum`              ↔ `readSum`, one file `readSumFile`, one line `sumLine`
     `filter_result`         ↔ `filterResult`, one variation `filterVariation`
     `main`                  ↔ `main`
   The result of a run is its exit status or the exception that ends it. Of what is
   printed the model keeps the unexpected results and the counts of the summary,
   not their layout. -/
namespace Testsuite
open Python ArchString

inductive PyErr where
  | osError
  | keyError
  | indexError
  | unboundLocalError
  | attributeError
  deriving DecidableEq, Repr

/-! The allowlists. -/

/-- `"%s.%s.log" % (a, b)` for any number of components. -/
def logName (parts : List Str) : Str := join ['.'] parts ++ ".log".toList

/-- The file names `append_if_exist` is called with, in order. -/
def whiteListNames (arch : Arch) (abi libc : Str) : List Str :=
  [["common".toList], [libc], [arch.baseArch], [abi], [arch.baseArch, abi],
    [libc, arch.baseArch], [libc, abi], [libc, arch.baseArch, abi]].map logName ++
  arch.ext.flatMap fun ext =>
    [[ext], [arch.baseArch, ext], [ext, abi], [arch.baseArch, ext, abi], [libc, ext],
      [libc, arch.baseArch, ext], [libc, ext, abi], [libc, arch.baseArch, ext, abi]].map logName

def getWhiteListFiles (fs : FS) (rawArch abi libc whiteListBaseDir : Str) :
    Except PyErr (List Str) :=
  match Arch.init rawArch with
  | none => .error .attributeError
  | some arch => .ok (((whiteListNames arch abi libc).map (pathJoin whiteListBaseDir)).filter
      (pathExists fs))

/-- A list per second field for gcc, a set of lines otherwise. -/
inductive WhiteList where
  | gcc (lists : Dict Str (List Str))
  | other (lines : Finset Str)

/-- `white_lists`, and `key`, which outlives the line it was read from. -/
structure WhiteListState where
  lists : Dict Str (List Str)
  key : Option Str

/-- One stripped line of an allowlist for gcc: a line without a second field leaves `key` as
    the last line with one has set it. -/
def whiteListLine (st : WhiteListState) (l : Str) : Except PyErr WhiteListState :=
  let key := ((split ' ' l)[1]?).or st.key
  match key with
  | none => .error .unboundLocalError
  | some k => .ok { lists := st.lists.set k ((st.lists.get k).getD [] ++ [l]), key := some k }

/-- A line that is read: neither empty nor a comment. -/
def isEntry (l : Str) : Bool := !l.isEmpty && l.head? != some '#'

/-- The entries of an allowlist file. -/
def whiteListEntries (fs : FS) (fname : Str) : Except PyErr (List Str) :=
  match readlines fs fname with
  | none => .error .osError
  | some content => .ok ((content.map strip).filter isEntry)

def readGccFile (fs : FS) (st : WhiteListState) (fname : Str) : Except PyErr WhiteListState := do
  (← whiteListEntries fs fname).foldlM whiteListLine st

def readOtherFile (fs : FS) (lines : Finset Str) (fname : Str) : Except PyErr (Finset Str) := do
  return lines ∪ (← whiteListEntries fs fname).toFinset

def readWhiteLists (fs : FS) (whiteListFiles : List Str) (isGcc : Bool) :
    Except PyErr WhiteList :=
  if isGcc then do
    return .gcc (← whiteListFiles.foldlM (readGccFile fs) ⟨Dict.empty, none⟩).lists
  else do
    return .other (← whiteListFiles.foldlM (readOtherFile fs) ∅)

def getWhiteList (fs : FS) (arch abi libc whiteListBaseDir : Str) (isGcc : Bool) :
    Except PyErr WhiteList := do
  readWhiteLists fs (← getWhiteListFiles fs arch abi libc whiteListBaseDir) isGcc

/-! The results. -/

def isTarget (l : Str) : Bool := startsWith "Running target".toList l

def isUnexpected (l : Str) : Bool :=
  startsWith "FAIL".toList l || startsWith "XPASS".toList l ||
    startsWith "UNRESOLVED".toList l || startsWith "ERROR".toList l

/-- `l.split(" ")[-1].strip()`. -/
def targetOf (l : Str) : Str := strip ((split ' ' l).getLastD [])

structure SumState where
  currentTarget : Option Str
  variations : List Str
  scanVariations : Bool
  unexpectedResult : Dict Str (List Str)

def sumLine (st : SumState) (l : Str) : Except PyErr SumState :=
  if startsWith "Schedule of variations".toList l then .ok { st with scanVariations := true }
  else if st.scanVariations && startsWith "    ".toList l then
    .ok { st with variations := st.variations ++ [strip l] }
  else
    let st := { st with scanVariations := false }
    if isTarget l then
      .ok { st with
        currentTarget := some (targetOf l)
        unexpectedResult := st.unexpectedResult.set (targetOf l) [] }
    else if isUnexpected l then
      -- `unexpected_result[None]` is a `KeyError` too
      match st.currentTarget.bind (fun t => (st.unexpectedResult.get t).map (t, ·)) with
      | none => .error .keyError
      | some (t, rs) =>
        .ok { st with unexpectedResult := st.unexpectedResult.set t (rs ++ [strip l]) }
    else .ok st

/-- `os.path.basename(sum_file).split(".")[0]`. -/
def testTool (sumFile : Str) : Str := (split '.' (basename sumFile)).headD []

def readSumFile (fs : FS) (sumFile : Str) : Except PyErr (Dict Str (List Str)) :=
  match readlines fs sumFile with
  | none => .error .osError
  | some content => do
    return (← content.foldlM sumLine ⟨none, [], false, Dict.empty⟩).unexpectedResult

abbrev Results := Dict Str (Dict Str (List Str))

def readSum (fs : FS) (sumFiles : List Str) : Except PyErr Results :=
  sumFiles.foldlM (fun results sumFile => do
    return results.set (testTool sumFile) (← readSumFile fs sumFile)) Dict.empty

/-! The filter. -/

structure Variation where
  arch : Str
  abi : Str
  cmodel : Str
  otherArgs : List Str
  deriving DecidableEq, Repr

def decodeInfo (v : Variation) (info : Str) : Variation :=
  if startsWith "-march".toList info then { v with arch := info.drop 7 }
  else if startsWith "-mabi".toList info then { v with abi := info.drop 6 }
  else if startsWith "-mcmodel".toList info then { v with cmodel := info.drop 9 }
  else if info ≠ "riscv-sim".toList then { v with otherArgs := v.otherArgs ++ [info] }
  else v

/-- The options of a board, as `filter_result` takes them from its name. -/
def decodeVariation (variation : Str) : Variation :=
  (split '/' variation).foldl decodeInfo ⟨[], [], [], []⟩

/-- The configuration the summary counts under. -/
structure Config where
  arch : Str
  abi : Str
  cmodel : Str
  otherArgs : Str
  deriving DecidableEq, Repr

def Variation.config (v : Variation) : Config := ⟨v.arch, v.abi, v.cmodel, join [':'] v.otherArgs⟩

/-- Whether a result is ignored. -/
def ignored (whiteList : WhiteList) (ur : Str) : Except PyErr Bool :=
  match whiteList with
  | .gcc lists =>
    match (split ' ' ur)[1]? with
    | none => .error .indexError
    | some key => .ok (((lists.get key).getD []).any (fun x => startsWith x ur))
  | .other lines => .ok (decide (ur ∈ lines))

/-- The counts of one tool under one configuration: unexpected results, and for gcc the
    distinct second fields among them. -/
structure Count where
  failCount : Nat
  caseCount : Option Nat
  deriving DecidableEq, Repr

/-- The results that are not ignored. -/
def unexpectedList (whiteList : WhiteList) (urs : List Str) : Except PyErr (List Str) :=
  urs.foldlM (fun acc ur => do
    if ← ignored whiteList ur then return acc else return acc ++ [ur]) []

def countOf (isGcc : Bool) (unexpected : List Str) : Count where
  failCount := unexpected.length
  caseCount := if isGcc then some (unexpected.filterMap fun ur => (split ' ' ur)[1]?).toFinset.card
    else none

/-- `summary`, `any_fail` and the results printed as unexpected. -/
structure FilterState where
  summary : Dict Config (Dict Str Count)
  anyFail : Bool
  printed : List (Str × Variation × List Str)

def filterVariation (fs : FS) (tool libc whiteListBaseDir : Str) (st : FilterState)
    (testtool variation : Str) (urs : List Str) : Except PyErr FilterState := do
  let isGcc := decide (tool = "gcc".toList)
  let v := decodeVariation variation
  let whiteList ← getWhiteList fs v.arch v.abi libc (pathJoin whiteListBaseDir tool) isGcc
  let unexpected ← unexpectedList whiteList urs
  return {
    summary := st.summary.set v.config
      (((st.summary.get v.config).getD Dict.empty).set testtool (countOf isGcc unexpected))
    anyFail := st.anyFail || !unexpected.isEmpty
    printed := if unexpected.isEmpty then st.printed
      else st.printed ++ [(testtool, v, unexpected)] }

def filterResult (fs : FS) (tool libc whiteListBaseDir : Str) (results : Results) :
    Except PyErr Nat := do
  let st ← results.entries.foldlM (fun st r =>
      r.2.entries.foldlM (fun st v => filterVariation fs tool libc whiteListBaseDir st r.1 v.1 v.2)
        st) (⟨Dict.empty, false, []⟩ : FilterState)
  return if st.anyFail || st.summary.entries.isEmpty then 1 else 0

/-- The exit status; a call with too few arguments prints the usage and exits with 0. -/
def main (fs : FS) : List Str → Except PyErr Nat
  | tool :: libc :: whiteListBaseDir :: sumFiles :: _ => do
    let results ← readSum fs (split ',' sumFiles)
    if tool ∈ ["gcc".toList, "binutils".toList] then
      filterResult fs tool libc whiteListBaseDir results
    else return 1
  | _ => .ok 0

end Testsuite
