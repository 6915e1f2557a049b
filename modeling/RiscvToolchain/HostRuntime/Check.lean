import RiscvToolchain.Python.Str

/- `build/check-host-runtime.sh`: the libraries the installed host programs need.

   Correspondence (bash ↔ Lean):
     `is_linux_system_library`        ↔ `isLinuxSystemLibrary`
     `is_windows_system_dll`          ↔ `isWindowsSystemDll`
     the two `sed` programs           ↔ `sharedLibrary`, `dllName`
     `check_linux`, `check_windows`   ↔ `checkLinux`, `checkWindows`
     `check_macos`                    ↔ `checkMacos`
     `check_native_gdb_features`      ↔ `checkNativeGdbFeatures`
     the `case` on the host           ↔ `hostOf`
     the script                       ↔ `main`: the exit status and what was printed
   A file is what the tools say of it: any exit status and any output of each call, a
   missing tool being a status and no output. `fail` is the shell's flag. Under
   `set -e` the only commands that can end the script before its last line are those
   that make the temporary file of the GDB probe. -/
namespace HostRuntime
open Python

/-- The exit status of a call, and the lines it printed. -/
structure Tool where
  status : Nat
  lines : List Str
  deriving DecidableEq, Repr

inductive Format where
  | elf
  | pe
  | machO
  | other
  deriving DecidableEq, Repr

/-- A regular file under `PREFIX`, and what the tools do with it. -/
structure File where
  path : Str
  /-- What the file is. -/
  format : Format
  readelfH : Tool
  readelfD : Tool
  objdumpP : Tool
  /-- `file -b "$f" | grep -q 'Mach-O'` succeeds. -/
  saysMachO : Bool
  otoolL : Tool
  deriving DecidableEq, Repr

/-- The installed GDB, as its probe sees it. -/
structure Gdb where
  path : Str
  configuration : Tool
  /-- `mktemp`, or the `printf` into its file, fails. -/
  tempFails : Bool
  xmlOutput : List Str
  deriving DecidableEq, Repr

structure Env where
  /-- `${WITH_HOST:-}`. -/
  withHost : Str
  /-- What `uname -s` prints. -/
  uname : Str
  files : List File
  gdb : Gdb
  deriving DecidableEq, Repr

/-! The names that are allowed. -/

def contains (p s : Str) : Bool := s.tails.any (startsWith p)

def isLinuxSystemLibrary (name : Str) : Bool :=
  name ∈ ["libc.so.6".toList, "libm.so.6".toList, "libdl.so.2".toList, "libpthread.so.0".toList,
    "librt.so.1".toList, "ld-linux-x86-64.so.2".toList, "ld-linux-aarch64.so.1".toList]

/-- `echo` prints nothing for a first argument of its own options. -/
def isEchoOption : Str → Bool
  | '-' :: c :: s => (c :: s).all (· ∈ ['n', 'e', 'E'])
  | _ => false

/-- `tr '[:upper:]' '[:lower:]'` of what `echo` prints. -/
def lowered (name : Str) : Str := if isEchoOption name then [] else name.map Char.toLower

def windowsSystemDlls : List Str :=
  ["kernel32.dll".toList, "kernelbase.dll".toList, "user32.dll".toList, "gdi32.dll".toList,
    "advapi32.dll".toList, "shell32.dll".toList, "shlwapi.dll".toList, "ws2_32.dll".toList,
    "ole32.dll".toList, "oleaut32.dll".toList, "version.dll".toList, "comdlg32.dll".toList,
    "comctl32.dll".toList, "rpcrt4.dll".toList, "crypt32.dll".toList, "bcrypt.dll".toList,
    "ntdll.dll".toList, "imm32.dll".toList, "winmm.dll".toList, "psapi.dll".toList,
    "iphlpapi.dll".toList, "dbghelp.dll".toList, "secur32.dll".toList, "setupapi.dll".toList,
    "userenv.dll".toList, "netapi32.dll".toList, "normaliz.dll".toList, "dnsapi.dll".toList,
    "powrprof.dll".toList, "imagehlp.dll".toList, "msvcrt.dll".toList, "ucrtbase.dll".toList]

/-- The pattern `pre*.dll`. -/
def globDll (pre s : Str) : Bool :=
  startsWith pre s && ".dll".toList.isSuffixOf (s.drop pre.length)

def isWindowsSystemDll (name : Str) : Bool :=
  lowered name ∈ windowsSystemDlls || globDll "api-ms-win-".toList (lowered name) ||
    globDll "ext-ms-win-".toList (lowered name)

/-! The names in the output of a tool. -/

/-- `Shared library: \[\([^]]*\)\]`, at the start of the text. -/
def sharedLibraryHere (s : Str) : Option Str :=
  let rest := s.drop "Shared library: [".toList.length
  if startsWith "Shared library: [".toList s && ']' ∈ rest then some (rest.takeWhile (· != ']'))
  else none

/-- The greedy `.*` before it takes the last place where it matches. -/
def sharedLibrary (line : Str) : Option Str := (line.tails.filterMap sharedLibraryHere).getLast?

/-- `[[:space:]]`. -/
def isCSpace (c : Char) : Bool := c ∈ [' ', '\t', '\n', '\x0b', '\x0c', '\r']

def dllName (line : Str) : Option Str :=
  let rest := line.dropWhile isCSpace
  if startsWith "DLL Name: ".toList rest then some (rest.drop "DLL Name: ".toList.length) else none

/-- The libraries `readelf -d` names; the loop passes over an empty name. -/
def File.sharedLibraries (f : File) : List Str :=
  (f.readelfD.lines.filterMap sharedLibrary).filter (fun d => !d.isEmpty)

/-- The libraries `objdump -p` names. -/
def File.dllNames (f : File) : List Str :=
  (f.objdumpP.lines.filterMap dllName).filter (fun d => !d.isEmpty)

/-! The script. -/

structure Shell where
  fail : Bool
  out : List Str
  deriving DecidableEq, Repr

/-- Some lines, and `fail=1`. -/
def Shell.reject (st : Shell) (lines : List Str) : Shell := ⟨true, st.out ++ lines⟩

def checkLinux (st : Shell) (f : File) : Shell :=
  if f.readelfH.status ≠ 0 then st
  else f.sharedLibraries.foldl (fun st dependency =>
    if isLinuxSystemLibrary dependency then st
    else st.reject (("FORBIDDEN Linux runtime dependency: ".toList ++ f.path ++ " -> ".toList ++
      dependency) :: f.readelfD.lines)) st

def checkWindows (st : Shell) (f : File) : Shell :=
  f.dllNames.foldl (fun st dll =>
    if isWindowsSystemDll dll then st
    else st.reject ["FORBIDDEN Windows runtime DLL: ".toList ++ f.path ++ " -> ".toList ++ dll]) st

/-- `/opt/homebrew|/usr/local/(opt|Cellar)` in a line. -/
def namesHomebrew (line : Str) : Bool :=
  contains "/opt/homebrew".toList line || contains "/usr/local/opt".toList line ||
    contains "/usr/local/Cellar".toList line

def checkMacos (st : Shell) (f : File) : Shell :=
  if !f.saysMachO then st
  else if f.otoolL.lines.any namesHomebrew then
    st.reject (("FORBIDDEN Homebrew runtime dependency: ".toList ++ f.path) :: f.otoolL.lines)
  else st

/-- `grep -q -- p <<<"$text"`. -/
def grep (p : Str) (lines : List Str) : Bool := lines.any (contains p)

def Shell.rejectIf (st : Shell) (c : Bool) (lines : List Str) : Shell :=
  if c then st.reject lines else st

/-- `none` is the end of the script by `set -e`. -/
def checkNativeGdbFeatures (gdb : Gdb) (st : Shell) : Option Shell :=
  let cfg := gdb.configuration.lines
  if gdb.configuration.status ≠ 0 then
    some (st.reject (("Unable to read GDB configuration: ".toList ++ gdb.path) :: cfg))
  else
    let st := st.rejectIf (!grep "--enable-tui".toList cfg) ["GDB built without --enable-tui".toList]
    let st := st.rejectIf (!grep "--with-curses".toList cfg)
      ["GDB built without --with-curses".toList]
    let st := st.rejectIf (grep "--without-expat".toList cfg || !grep "--with-expat".toList cfg)
      ["GDB built without --with-expat".toList]
    if gdb.tempFails then none
    else if grep "XML support was disabled at compile time".toList gdb.xmlOutput then
      some (st.reject ("GDB XML parser is disabled".toList :: gdb.xmlOutput))
    else some (st.rejectIf
      (!(grep "while parsing target description".toList gdb.xmlOutput ||
        grep "Could not load XML target description".toList gdb.xmlOutput))
      ("GDB XML probe did not reach the XML parser".toList :: gdb.xmlOutput))

/-- The arms of the `case`. -/
inductive Host where
  | mingw
  | linux
  | darwin
  | unknown
  deriving DecidableEq, Repr

def hostOf (withHost uname : Str) : Host :=
  let host := if withHost.isEmpty then uname else withHost
  if contains "mingw".toList host then .mingw
  else if host = "Linux".toList then .linux
  else if host = "Darwin".toList then .darwin
  else .unknown

/-- `find … -name '*.exe'`. -/
def File.isExe (f : File) : Bool := ".exe".toList.isSuffixOf f.path

def checkHost (env : Env) (st : Shell) : Option Shell :=
  match hostOf env.withHost env.uname with
  | .mingw => some ((env.files.filter File.isExe).foldl checkWindows st)
  | .linux => checkNativeGdbFeatures env.gdb (env.files.foldl checkLinux st)
  | .darwin => checkNativeGdbFeatures env.gdb (env.files.foldl checkMacos st)
  | .unknown => some st

def main (env : Env) : Nat × List Str :=
  match checkHost env ⟨false, []⟩ with
  | none => (1, [])
  | some st =>
    if st.fail then (1, st.out) else (0, st.out ++ ["Host runtime dependency check passed.".toList])

/-! What the check promises. -/

/-- The format of the host's programs; of a host the script does not know, it may be any. -/
def hostFormat (unknownFormat : Format) : Host → Format
  | .mingw => .pe
  | .linux => .elf
  | .darwin => .machO
  | .unknown => unknownFormat

/-- The script looks at the file, and each call on it succeeds. -/
def Inspected (h : Host) (f : File) : Prop :=
  match h with
  | .mingw => f.isExe = true ∧ f.objdumpP.status = 0
  | .linux => f.readelfH.status = 0 ∧ f.readelfD.status = 0
  | .darwin => f.saysMachO = true ∧ f.otoolL.status = 0
  | .unknown => False

/-- Every library the tools name for the file is one the host has. -/
def Accepted (h : Host) (f : File) : Prop :=
  match h with
  | .mingw => ∀ d ∈ f.dllNames, isWindowsSystemDll d = true
  | .linux => ∀ d ∈ f.sharedLibraries, isLinuxSystemLibrary d = true
  | .darwin | .unknown => True

def FailsClosed (env : Env) (unknownFormat : Format) : Prop :=
  (main env).1 = 0 → ∀ f ∈ env.files,
    f.format = hostFormat unknownFormat (hostOf env.withHost env.uname) →
    Inspected (hostOf env.withHost env.uname) f ∧ Accepted (hostOf env.withHost env.uname) f

/-- The GDB check finds fault. -/
def Gdb.Faulty (gdb : Gdb) : Prop :=
  gdb.configuration.status ≠ 0 ∨ grep "--enable-tui".toList gdb.configuration.lines = false ∨
    grep "--with-curses".toList gdb.configuration.lines = false ∨
    grep "--without-expat".toList gdb.configuration.lines = true ∨
    grep "--with-expat".toList gdb.configuration.lines = false ∨ gdb.tempFails = true ∨
    grep "XML support was disabled at compile time".toList gdb.xmlOutput = true ∨
    (grep "while parsing target description".toList gdb.xmlOutput = false ∧
      grep "Could not load XML target description".toList gdb.xmlOutput = false)

/-- There is something the script rejects: a name a tool gives for a file it looks at, or GDB. -/
def Rejects (env : Env) : Prop :=
  match hostOf env.withHost env.uname with
  | .mingw => ∃ f ∈ env.files, f.isExe = true ∧ ∃ d ∈ f.dllNames, isWindowsSystemDll d = false
  | .linux => (∃ f ∈ env.files, f.readelfH.status = 0 ∧
      ∃ d ∈ f.sharedLibraries, isLinuxSystemLibrary d = false) ∨ env.gdb.Faulty
  | .darwin => (∃ f ∈ env.files, f.saysMachO = true ∧
      ∃ line ∈ f.otoolL.lines, namesHomebrew line = true) ∨ env.gdb.Faulty
  | .unknown => False

/-! The flag. -/

/-- A loop whose passes only ever set the flag. -/
theorem foldl_fail {α : Type} {g : Shell → α → Shell} {p : α → Bool}
    (h : ∀ st a, (g st a).fail = (st.fail || p a)) (l : List α) :
    ∀ st, (l.foldl g st).fail = (st.fail || l.any p) := by
  induction l with
  | nil => simp
  | cons a l ih =>
    intro st
    rw [List.foldl_cons, ih, h, List.any_cons, Bool.or_assoc]

theorem rejectIf_fail (st : Shell) (c : Bool) (lines : List Str) :
    (st.rejectIf c lines).fail = (st.fail || c) := by
  cases c <;> simp [Shell.rejectIf, Shell.reject]

theorem checkLinux_fail (st : Shell) (f : File) :
    (checkLinux st f).fail = (st.fail ||
      (f.readelfH.status == 0 && f.sharedLibraries.any (fun d => !isLinuxSystemLibrary d))) := by
  unfold checkLinux
  by_cases h : f.readelfH.status = 0
  · rw [if_neg (not_not_intro h), foldl_fail (p := fun d => !isLinuxSystemLibrary d)]
    · simp [h]
    · intro st d
      cases isLinuxSystemLibrary d <;> simp [Shell.reject]
  · simp [h]

theorem checkWindows_fail (st : Shell) (f : File) :
    (checkWindows st f).fail = (st.fail || f.dllNames.any (fun d => !isWindowsSystemDll d)) := by
  unfold checkWindows
  rw [foldl_fail (p := fun d => !isWindowsSystemDll d)]
  intro st d
  cases isWindowsSystemDll d <;> simp [Shell.reject]

theorem checkMacos_fail (st : Shell) (f : File) :
    (checkMacos st f).fail = (st.fail || (f.saysMachO && f.otoolL.lines.any namesHomebrew)) := by
  unfold checkMacos
  cases f.saysMachO with
  | false => simp
  | true => cases f.otoolL.lines.any namesHomebrew <;> simp [Shell.reject]

/-- The GDB check goes on with the flag clear exactly where it finds no fault. -/
theorem checkNativeGdbFeatures_ok_iff (gdb : Gdb) (st : Shell) :
    (∃ st', checkNativeGdbFeatures gdb st = some st' ∧ st'.fail = false) ↔
      st.fail = false ∧ ¬ gdb.Faulty := by
  unfold checkNativeGdbFeatures Gdb.Faulty
  by_cases hs : gdb.configuration.status = 0
  · by_cases ht : gdb.tempFails = true
    · simp [hs, ht]
    · by_cases hx : grep "XML support was disabled at compile time".toList gdb.xmlOutput = true
      · simp only [hs, ht, hx]
        simp [Shell.reject]
      · simp only [hs, ht, hx, ne_eq, not_true, if_false, Option.some.injEq, exists_eq_left',
          rejectIf_fail, Bool.or_eq_false_iff, Bool.not_eq_false', Bool.or_eq_true, false_or,
          not_or, not_and_or, Bool.not_eq_false, Bool.not_eq_true, and_assoc,
          Bool.false_eq_true]
  · simp [hs, Shell.reject]

/-- Exit status 0 means that the script found nothing to reject, and no more. -/
theorem main_status_iff (env : Env) : (main env).1 = 0 ↔ ¬ Rejects env := by
  have hmain : (main env).1 = 0 ↔ ∃ st, checkHost env ⟨false, []⟩ = some st ∧ st.fail = false := by
    unfold main
    cases checkHost env ⟨false, []⟩ with
    | none => simp
    | some st => cases hf : st.fail <;> simp [hf]
  rw [hmain]
  unfold checkHost Rejects
  cases hostOf env.withHost env.uname with
  | mingw =>
    simp only [Option.some.injEq, exists_eq_left', foldl_fail checkWindows_fail, Bool.false_or]
    simp
  | linux =>
    simp only [checkNativeGdbFeatures_ok_iff, foldl_fail checkLinux_fail, Bool.false_or, not_or]
    simp
  | darwin =>
    simp only [checkNativeGdbFeatures_ok_iff, foldl_fail checkMacos_fail, Bool.false_or, not_or]
    simp
  | unknown => simp

theorem accepted_of_not_rejects {env : Env} (h : ¬ Rejects env) {f : File} (hf : f ∈ env.files)
    (hi : Inspected (hostOf env.withHost env.uname) f) :
    Accepted (hostOf env.withHost env.uname) f := by
  unfold Rejects at h
  cases hh : hostOf env.withHost env.uname with
  | mingw =>
    rw [hh] at h hi
    intro d hd
    by_contra hno
    exact h ⟨f, hf, hi.1, d, hd, by simpa using hno⟩
  | linux =>
    rw [hh] at h hi
    intro d hd
    by_contra hno
    exact h (Or.inl ⟨f, hf, hi.1, d, hd, by simpa using hno⟩)
  | darwin => trivial
  | unknown => trivial

/-- A GDB the probe is content with. -/
def goodGdb : Gdb :=
  { path := "bin/riscv32-unknown-elf-gdb".toList
    configuration := ⟨0, ["--enable-tui".toList, "--with-curses".toList, "--with-expat".toList]⟩
    tempFails := false
    xmlOutput := ["warning: while parsing target description".toList] }

/-- A Linux host without `readelf`. -/
def withoutReadelf : Env :=
  { withHost := []
    uname := "Linux".toList
    gdb := goodGdb
    files := [{
      path := "bin/gcc".toList, format := .elf, readelfH := ⟨127, []⟩, readelfD := ⟨127, []⟩,
      objdumpP := ⟨127, []⟩, saysMachO := false, otoolL := ⟨127, []⟩ }] }

end HostRuntime
