import RiscvToolchain.Posix.Tree
import RiscvToolchain.Semantics.Prog

/- `build/prepare-llvm-mingw.sh` with `fetch_source` of `build/fetch-source.sh`: the
   pinned toolchain archive is downloaded, checked and unpacked into a cache. A run
   is a program over what the work directory holds. Every command that writes there
   may complete, fail or be the point at which the run is killed (`Fate`); a command
   that does not complete leaves what the world says: any part of a tree that was
   being removed, any tree that was being unpacked, any bytes of a download. The
   `EXIT` trap runs when the shell exits by itself, and not when it is killed.

   The work directory is a record of the places the script names, which are distinct
   paths; SHA-256, the listing test of an archive and what an archive unpacks to are
   given functions.

   Correspondence (bash ↔ Lean):
     `verify_archive`, `validate_root`     ↔ `verifyArchive`, `validateRoot`
     `cleanup_llvm_mingw_temp`             ↔ `cleanup`
     `fetch_source_archive_ok`             ↔ the given `archiveOk`
     `fetch_source`                        ↔ `fetchSource`
     `main`                                ↔ `main`
-/
namespace Mingw
open Python Posix Semantics

/-- What the work directory holds. -/
structure Work where
  /-- `$work/downloads` is there. -/
  downloads : Bool
  /-- `$archive`, `$work/downloads/$asset`. -/
  archive : Option Bytes
  /-- `$archive.part`. -/
  part : Option Bytes
  /-- `$install_root`, `$work/llvm-mingw-$version-$variant`. -/
  installRoot : Option Tree
  /-- `$work/.llvm-mingw-$version-$variant.XXXXXX`, by its random end. -/
  temps : Str → Option Tree

/-- The empty work directory. -/
def Work.empty : Work := ⟨false, none, none, none, fun _ => none⟩

inductive Event where
  | completes
  | fails
  | killed
  deriving DecidableEq

/-- What becomes of a command. -/
structure Fate where
  event : Event
  /-- The nodes that a removal which does not complete leaves. -/
  remaining : Path → Bool
  /-- What an extraction that does not complete leaves. -/
  unpacked : Tree
  /-- What a download leaves. -/
  downloaded : Option Bytes
  /-- The random end of a name that `mktemp` draws. -/
  drawn : Name

/-- How a run ends before its end: with an exit status, or killed. -/
inductive Exit where
  | status (n : Nat)
  | killed
  deriving DecidableEq

structure World where
  work : Work
  plan : Nat → Fate
  stdout : List Str
  stderr : List Str

abbrev M := Prog World Exit

/-- A command: what it does when it completes (`none` is an error of its own), and what it
    leaves when it does not. -/
def command (effect : Fate → Work → Option Work) (stopped : Fate → Work → Work) : M Unit := fun w =>
  let fate := w.plan 0
  let w' := { w with plan := fun n => w.plan (n + 1) }
  match fate.event with
  | .completes =>
    match effect fate w.work with
    | some work => (.ok (), { w' with work := work })
    | none => (.error (.status 1), { w' with work := stopped fate w.work })
  | .fails => (.error (.status 1), { w' with work := stopped fate w.work })
  | .killed => (.error .killed, { w' with work := stopped fate w.work })

/-- The state of the work directory. -/
def work : M Work := fun w => (.ok w.work, w)

def echo (line : Str) : M Unit := fun w => (.ok (), { w with stderr := w.stderr ++ [line] })

def emit (line : Str) : M Unit := fun w => (.ok (), { w with stdout := w.stdout ++ [line] })

/-- A command as a condition: its failure is an answer. -/
def succeeds (x : M Unit) : M Bool :=
  (do x; return true).handle fun
    | .status _ => pure false
    | .killed => Prog.raise .killed

/-- `if …; then …; fi`. -/
def onlyIf (c : Bool) (x : M Unit) : M Unit := if c then x else pure ()

/-- `rm -rf` of a tree: what is left when it stops half-way. -/
def partly (remaining : Path → Bool) (t : Tree) : Tree := fun p => if remaining p then t p else none

def bin : Name := ⟨"bin".toList, by decide⟩

/-- The tools `validate_root` asks for. -/
def tools : List (Str × List Component) :=
  let tool (n : Name) : Str × List Component := ("bin/".toList ++ n.text, [.name bin, .name n])
  [tool ⟨"x86_64-w64-mingw32-clang".toList, by decide⟩,
   tool ⟨"x86_64-w64-mingw32-clang++".toList, by decide⟩,
   tool ⟨"x86_64-w64-mingw32-windres".toList, by decide⟩,
   tool ⟨"llvm-ar".toList, by decide⟩,
   tool ⟨"llvm-ranlib".toList, by decide⟩,
   tool ⟨"llvm-strip".toList, by decide⟩]

/-- `.complete`. -/
def marker : List Component := [.name ⟨".complete".toList, by decide⟩]

structure Arguments where
  version : Str
  variant : Str
  asset : Str
  expectedSha256 : Str
  url : Str
  /-- `$WORK`, as `pwd -P` prints it. -/
  work : Str

section Paths
variable (a : Arguments)

def Arguments.archive : Str := a.work ++ "/downloads/".toList ++ a.asset

def Arguments.installRoot : Str :=
  a.work ++ "/llvm-mingw-".toList ++ a.version ++ ['-'] ++ a.variant

def Arguments.tempRoot (drawn : Name) : Str :=
  a.work ++ "/.llvm-mingw-".toList ++ a.version ++ ['-'] ++ a.variant ++ ['.'] ++ drawn.text

end Paths

section Given
variable (sha256 : Bytes → Str) (archiveOk : Bytes → Bool) (extract : Bytes → Option Tree)

/-- A command that only reads. -/
def reads : M Unit := command (fun _ w => some w) (fun _ w => w)

/-- `sha256_file "$archive"`; `none` is its failure. -/
def sha256File : M (Option Str) := do
  let read ← succeeds reads
  let w ← work
  return if read then w.archive.map sha256 else none

/-- The status of `verify_archive "$archive" "$expected_sha256"`. -/
def verifyArchive (archive expected : Str) : M Bool := do
  let actual? ← sha256File sha256
  match actual? with
  | none => return false
  | some actual =>
    if actual = expected then return true
    else do
      echo ("llvm-mingw SHA-256 mismatch: ".toList ++ archive)
      echo ("expected: ".toList ++ expected)
      echo ("actual:   ".toList ++ actual)
      return false

/-- The status of `validate_root "$root"`. -/
def validateRoot (root : Str) (t : Tree) : List (Str × List Component) → M Bool
  | [] => return true
  | tool :: rest =>
    if t.isExecutable tool.2 then validateRoot root t rest
    else do
      echo ("llvm-mingw is missing executable: ".toList ++ root ++ ['/'] ++ tool.1)
      return false

/-- `rm -f "$partial"`. -/
def rmPart : M Unit := command (fun _ w => some { w with part := none }) (fun _ w => w)

/-- `rm -f -- "$archive"`. -/
def rmArchive : M Unit := command (fun _ w => some { w with archive := none }) (fun _ w => w)

/-- `curl … "$url" -o "$partial"`. -/
def curl : M Unit :=
  let leave := fun (f : Fate) (w : Work) => { w with part := f.downloaded }
  command (fun f w => some (leave f w)) leave

/-- `fetch_source_archive_ok "$partial" "$destination"`. -/
def partOk : M Bool := do
  let w ← work
  return match w.part with
    | some bytes => archiveOk bytes
    | none => false

/-- `mv -f "$partial" "$destination"`. -/
def mvPart : M Unit :=
  command (fun _ w => w.part.map fun bytes => { w with archive := some bytes, part := none })
    (fun _ w => w)

/-- The loop of `fetch_source` over the mirrors; a return is status 0. -/
def fetchMirrors (destination : Str) : List Str → M Unit
  | [] => do
    echo ("unable to download ".toList ++ destination ++ " from any mirror".toList)
    Prog.raise (.status 1)
  | url :: rest => do
    echo ("download: ".toList ++ url)
    let got ← succeeds curl
    let ok ← partOk archiveOk
    if got && ok then mvPart
    else do
      onlyIf got (echo ("not a valid archive: ".toList ++ url))
      rmPart
      echo ("mirror failed: ".toList ++ url)
      fetchMirrors destination rest

def fetchSource (destination : Str) (urls : List Str) : M Unit :=
  if urls = [] then do
    echo ("fetch_source: no mirrors provided for ".toList ++ destination)
    Prog.raise (.status 2)
  else do
    rmPart
    fetchMirrors archiveOk destination urls

def setTemp (w : Work) (n : Name) (t : Option Tree) : Work :=
  { w with temps := fun s => if s = n.text then t else w.temps s }

/-- The name that the next command draws. -/
def nextDrawn : M Name := fun w => (.ok (w.plan 0).drawn, w)

/-- `mktemp -d`: a new directory under a name that is not in use. -/
def mktemp : M Name := do
  let drawn ← nextDrawn
  command
    (fun _ w => if w.temps drawn.text = none then some (setTemp w drawn (some Tree.empty)) else none)
    (fun _ w => w)
  return drawn

/-- `tar -xJf "$archive" -C "$LLVM_MINGW_TEMP_ROOT" --strip-components=1`. -/
def untar (temp : Name) : M Unit :=
  command
    (fun _ w => do
      let bytes ← w.archive
      let t ← extract bytes
      return setTemp w temp (some t))
    (fun f w => setTemp w temp (some f.unpacked))

/-- `touch "$LLVM_MINGW_TEMP_ROOT/.complete"`. -/
def touchMarker (temp : Name) : M Unit :=
  command
    (fun _ w => do
      let t ← w.temps temp.text
      let t' ← t.touch marker
      return setTemp w temp (some t'))
    (fun _ w => w)

/-- `mv "$LLVM_MINGW_TEMP_ROOT" "$install_root"`: into the directory if there is one. -/
def mvInstall (temp : Name) : M Unit :=
  command
    (fun _ w => do
      let t ← w.temps temp.text
      let root := match w.installRoot with
        | none => t
        | some r => r.graft temp t
      return { setTemp w temp none with installRoot := some root })
    (fun _ w => w)

/-- `rm -rf -- "$install_root"`. -/
def rmInstall : M Unit :=
  command (fun _ w => some { w with installRoot := none })
    (fun f w => { w with installRoot := w.installRoot.map (partly f.remaining) })

def cleanup (temp : Name) : M Unit := do
  let w ← work
  onlyIf (w.temps temp.text).isSome
    (command (fun _ w => some (setTemp w temp none))
      (fun f w => setTemp w temp ((w.temps temp.text).map (partly f.remaining))))

/-- `trap cleanup_llvm_mingw_temp EXIT`, cleared where the body returns. -/
def withTrap (temp : Name) (body : M Unit) : M Unit :=
  body.handle fun
    | .killed => Prog.raise .killed
    | .status n => do
      cleanup temp
      Prog.raise (.status n)

/-- `printf '%s\n' "$install_root"`. -/
def printInstall (a : Arguments) : M Unit := do
  reads
  emit a.installRoot

/-- `[ -f "$install_root/.complete" ] && validate_root "$install_root"`. -/
def installed (a : Arguments) : M Bool := do
  let w ← work
  match w.installRoot with
  | none => return false
  | some t => if t.isFile marker then validateRoot a.installRoot t tools else return false

/-- `validate_root "$LLVM_MINGW_TEMP_ROOT" || return 1`. -/
def validateTemp (a : Arguments) (temp : Name) : M Unit := do
  let w ← work
  match w.temps temp.text with
  | none => Prog.raise (.status 1)
  | some t => do
    let valid ← validateRoot (a.tempRoot temp) t tools
    if valid then pure () else Prog.raise (.status 1)

/-- From the verified archive to the installed tree. -/
def install (a : Arguments) (temp : Name) : M Unit :=
  withTrap temp do
    untar extract temp
    validateTemp a temp
    touchMarker temp
    mvInstall temp

/-- `if [ -f "$archive" ] && ! verify_archive …; then rm -f -- "$archive"; fi`. -/
def removeStale (a : Arguments) : M Unit := do
  let w ← work
  if w.archive.isSome then do
    let verified ← verifyArchive sha256 a.archive a.expectedSha256
    onlyIf (!verified) rmArchive
  else pure ()

/-- What `main` does where no complete tree is installed. -/
def reinstall (a : Arguments) : M Unit := do
  let w ← work
  onlyIf w.installRoot.isSome rmInstall
  removeStale sha256 a
  let w ← work
  onlyIf w.archive.isNone (fetchSource archiveOk a.archive [a.url])
  let verified ← verifyArchive sha256 a.archive a.expectedSha256
  if verified then do
    let temp ← mktemp
    install extract a temp
    printInstall a
  else do
    rmArchive
    Prog.raise (.status 1)

/-- `main`; a return is status 0. -/
def main (a : Arguments) : M Unit := do
  -- mkdir -p "$work/downloads"
  command (fun _ w => some { w with downloads := true }) (fun _ w => w)
  let there ← installed a
  if there then printInstall a else reinstall sha256 archiveOk extract a

end Given
end Mingw
