import RiscvToolchain.Python.OsPath
import RiscvToolchain.Python.Json
import RiscvToolchain.Semantics.Prog

/- `build/prepare-beget-release.py`: the bundle of the six archives and their
   manifest. A run is a program over the file system in which any file operation
   may fail: `World.fault` says for each of the operations still to come whether it
   raises, which exception, and what a copy or a write had left in its file by then.
   `Path.resolve` and SHA-256 are given functions; the names `mkstemp` draws are
   given too.

   Correspondence (Python ↔ Lean):
     `FILES`, `REPOSITORY`, `CHUNK_SIZE`  ↔ the definitions of these names
     `normalize_version`                  ↔ `normalizeVersion`
     `paths_overlap`                      ↔ `pathsOverlap`
     `validate_input`, `prepare_output`   ↔ `validateInput`, `prepareOutput`
     `sha256`, `write_manifest`           ↔ `sha256`, `writeManifest`
     `main`, to the end of the rename     ↔ `buildBundle`
     `main`, the report                   ↔ `report`
-/
namespace Release
open Python Posix Semantics

-- The whole file system, not the text files of `Python.FS`.
export Posix (FS Node)

/-! The tables. -/

/-- One of the six archives: its name and its profile. -/
structure Archive where
  name : Name
  os : Str
  arch : Str
  archiv : Str

def REPOSITORY : Str := "phlyash/riscv-toolchain".toList

def FILES : List Archive :=
  [⟨⟨"niiet-riscv-toolchain-linux-x86_64.tar.gz".toList, by decide⟩,
    "linux".toList, "x86_64".toList, "tar.gz".toList⟩,
   ⟨⟨"niiet-riscv-toolchain-linux-x86_64.zip".toList, by decide⟩,
    "linux".toList, "x86_64".toList, "zip".toList⟩,
   ⟨⟨"niiet-riscv-toolchain-macos-aarch64.tar.gz".toList, by decide⟩,
    "darwin".toList, "aarch64".toList, "tar.gz".toList⟩,
   ⟨⟨"niiet-riscv-toolchain-macos-aarch64.zip".toList, by decide⟩,
    "darwin".toList, "aarch64".toList, "zip".toList⟩,
   ⟨⟨"niiet-riscv-toolchain-windows-x86_64.tar.gz".toList, by decide⟩,
    "windows".toList, "x86_64".toList, "tar.gz".toList⟩,
   ⟨⟨"niiet-riscv-toolchain-windows-x86_64.zip".toList, by decide⟩,
    "windows".toList, "x86_64".toList, "zip".toList⟩]

def releaseJson : Name := ⟨"release.json".toList, by decide⟩

def CHUNK_SIZE : Nat := 1024 * 1024

/-! Exceptions and the operations that raise them. -/

inductive Exn where
  | valueError (message : Str)
  | osError (errno : Errno)
  /-- Any other exception: `SystemExit`, `KeyboardInterrupt`, `MemoryError`. -/
  | other
  deriving DecidableEq

/-- The failure of an operation: the exception, and what the file it was writing holds then;
    `none` if the file was not opened. -/
structure Fault where
  exn : Exn
  written : Option Bytes

/-- The random end of a temporary file's name. -/
structure TempSuffix where
  text : Str
  valid : text.all (· ∈ "abcdefghijklmnopqrstuvwxyz0123456789_".toList) = true

structure World where
  fs : FS
  fault : Nat → Option Fault
  suffixes : List TempSuffix
  stdout : List Str

abbrev M := Prog World Exn

/-- A file operation: it raises as the world says, or does what the file system does. -/
def fileOp {α : Type} (failed : Fault → FS → FS) (op : FS → Except Errno (α × FS)) : M α :=
  fun w =>
    let w' := { w with fault := fun n => w.fault (n + 1) }
    match w.fault 0 with
    | some f => (.error f.exn, { w' with fs := failed f w.fs })
    | none =>
      match op w.fs with
      | .ok (a, fs) => (.ok a, { w' with fs := fs })
      | .error e => (.error (.osError e), w')

/-- An operation that changes nothing. -/
def query {α : Type} (op : FS → Except Errno α) : M α :=
  fileOp (fun _ fs => fs) (fun fs => (op fs).map (·, fs))

/-- The file the operation was writing, as the failure leaves it. -/
def leftover (p : Path) (f : Fault) (fs : FS) : FS :=
  match f.written with
  | none => fs
  | some bytes =>
    match fs.write p bytes with
    | .ok fs' => fs'
    | .error _ => fs

/-! The methods of `Path`. -/

/-- The errors of a `stat` that `pathlib` takes for an answer. -/
def ignoreError : Exn → Bool
  | .osError .enoent | .osError .enotdir | .osError .ebadf | .osError .eloop => true
  | .valueError _ => true
  | _ => false

/-- `exists`, `is_dir`, `is_file` and `is_symlink`: a test of what a `stat` finds. -/
def statTest (look : FS → Path → Option Node) (test : Node → Bool) (p : Path) : M Bool :=
  (do
    let node ← query fun fs =>
      match look fs p with
      | some node => .ok node
      | none => .error .enoent
    return test node).handle
  fun e => if ignoreError e then pure false else Prog.raise e

def pathExists (p : Path) : M Bool := statTest FS.stat (fun _ => true) p

def isDir (p : Path) : M Bool := statTest FS.stat (fun | .dir => true | _ => false) p

def isFile (p : Path) : M Bool := statTest FS.stat (fun | .file _ => true | _ => false) p

def isSymlink (p : Path) : M Bool := statTest FS.get (fun | .symlink _ => true | _ => false) p

/-- The names `iterdir` lists. -/
def iterdir (p : Path) : M (List Name) :=
  query fun fs =>
    match fs.get p with
    | some .dir => .ok (fs.entries p)
    | some _ => .error .enotdir
    | none => .error .enoent

def osMkdir (p : Path) : M Unit :=
  fileOp (fun _ fs => fs) (fun fs => (fs.mkdir p).map ((), ·))

/-- `mkdir(parents=True)`; a parent is made with `exist_ok`. -/
def mkdirParents (existOk : Bool) (p : Path) : M Unit :=
  (osMkdir p).handle fun e =>
    if e = .osError .enoent then
      match p with
      | [] => Prog.raise e
      | _ :: d => do
        mkdirParents true d
        -- the second attempt is made without `parents`
        (osMkdir p).handle fun e => if e = .osError .enoent then Prog.raise e else existing e
    else existing e
where
  /-- `except OSError`. -/
  existing (e : Exn) : M Unit :=
    match e with
    | .osError _ => do
      if existOk then
        let there ← isDir p
        if there then pure () else Prog.raise e
      else Prog.raise e
    | _ => Prog.raise e

/-! The program. -/

structure Arguments where
  type : Str
  tag : Str
  repository : Str
  runId : Str
  input : Str
  output : Str

structure Entry where
  name : Str
  os : Str
  arch : Str
  archiv : Str
  sha256 : Str

structure Manifest where
  schema : Nat
  type : Str
  version : Str
  repository : Str
  runId : Str
  files : List Entry

def Entry.json (e : Entry) : Str :=
  jsonDict 2
    [("name".toList, jsonString e.name), ("os".toList, jsonString e.os),
     ("arch".toList, jsonString e.arch), ("archiv".toList, jsonString e.archiv),
     ("sha256".toList, jsonString e.sha256)]

/-- `json.dump(manifest, temporary, indent=2)`. -/
def Manifest.json (m : Manifest) : Str :=
  jsonDict 0
    [("schema".toList, str m.schema), ("type".toList, jsonString m.type),
     ("version".toList, jsonString m.version), ("repository".toList, jsonString m.repository),
     ("run_id".toList, jsonString m.runId),
     ("files".toList, jsonList 1 (m.files.map Entry.json))]

/-- The characters of a version after its first digit. -/
def isVersionChar (c : Char) : Bool :=
  c.isUpper || c.isLower || c.isDigit || c ∈ ['.', '_', '+', '~', '-']

/-- `VERSION_PATTERN.fullmatch`. -/
def versionMatches : Str → Bool
  | [] => false
  | c :: s => c.isDigit && s.all isVersionChar

def normalizeVersion (tag : Str) : Except Exn Str :=
  let version := if startsWith ['v'] tag then tag.drop 1 else tag
  if versionMatches version then .ok version
  else .error (.valueError "invalid release version".toList)

def pathsOverlap (first second : Str) : Bool :=
  match commonpath first second with
  | some c => c = first || c = second
  | none => false

/-- `raise ValueError(message)` unless the test holds. -/
def require (test : Bool) (message : Str) : M Unit :=
  if test then pure () else Prog.raise (.valueError message)

def validateInput (source : Path) : M Unit := do
  let link ← isSymlink source
  require (!link) "input must be a directory".toList
  let dir ← isDir source
  require dir "input must be a directory".toList
  let entries ← iterdir source
  require (entries.all (· ∈ FILES.map Archive.name) && FILES.all (·.name ∈ entries))
    "input must contain exactly the six compiler archives".toList
  validateArchives FILES
where
  validateArchives : List Archive → M Unit
    | [] => pure ()
    | a :: rest => do
      let message := "input archive must be a regular non-symlink file: ".toList ++ a.name.text
      let link ← isSymlink (a.name :: source)
      require (!link) message
      let file ← isFile (a.name :: source)
      require file message
      validateArchives rest

def prepareOutput (output : Path) : M Unit := do
  let there ← pathExists output
  if there then
    let link ← isSymlink output
    require (!link) "output must be a directory".toList
    let dir ← isDir output
    require dir "output must be a directory".toList
    let entries ← iterdir output
    require entries.isEmpty "output directory must be empty".toList
  else mkdirParents false output

/-- `shutil.copyfile(source_file, destination)`. -/
def copyfile (sourceFile destination : Path) : M Unit :=
  fileOp (leftover destination) fun fs => do
    let bytes ← fs.read sourceFile
    return ((), ← fs.write destination bytes)

/-- `tempfile.mkstemp(prefix=".release-", dir=output)`: the first name drawn that is not
    in use. -/
def TempSuffix.name (s : TempSuffix) : Name where
  text := ".release-".toList ++ s.text
  valid := by
    refine ⟨by simp, ?_, by simp, by simp⟩
    rw [List.mem_append, not_or]
    refine ⟨by decide, ?_⟩
    intro h
    exact absurd (List.all_eq_true.mp s.valid '/' h) (by decide)

def mkstemp (output : Path) : M Name := fun w =>
  fileOp (fun _ fs => fs)
    (fun fs =>
      match w.suffixes.find? (fun s => fs.get (s.name :: output) = none) with
      | none => .error .eexist
      | some s => do
        let fs' ← fs.write (s.name :: output) []
        return (s.name, fs'))
    w

section Given
variable (hexdigest : Bytes → Str)

/-- The reading loop of `sha256`; the fuel, one more than the bytes left, is not used up. -/
def sha256Loop : Nat → Bytes → Bytes → M Bytes
  | 0, seen, _ => pure seen
  | fuel + 1, seen, rest => do
    let chunk ← query fun _ => .ok (rest.take CHUNK_SIZE)
    if chunk.isEmpty then pure seen
    else sha256Loop fuel (seen ++ chunk) (rest.drop CHUNK_SIZE)

def sha256 (path : Path) : M Str := do
  let archive ← query fun fs => fs.read path
  let bytes ← sha256Loop (archive.length + 1) [] archive
  return hexdigest bytes

/-- A write to the open temporary file. -/
def appendText (temporary : Path) (text : Str) : M Unit :=
  fileOp (leftover temporary) fun fs => do
    let old ← fs.read temporary
    return ((), ← fs.write temporary (old ++ encodeUtf8 text))

/-- Closing the temporary file writes what is still buffered. -/
def closeFile (temporary : Path) : M Unit :=
  fileOp (leftover temporary) fun fs => .ok ((), fs)

def osReplace (p q : Path) : M Unit :=
  fileOp (fun _ fs => fs) fun fs => (fs.rename p q).map ((), ·)

/-- `os.unlink` where a missing file is no error. Removing the temporary file is not among the
    operations that fail. -/
def unlinkMissingOk (p : Path) : M Unit := fun w =>
  match w.fs.unlink p with
  | .ok fs => (.ok (), { w with fs := fs })
  | .error .enoent => (.ok (), w)
  | .error e => (.error (.osError e), w)

def writeManifest (output : Path) (manifest : Manifest) : M Unit := do
  let temporaryName ← mkstemp output
  let temporary := temporaryName :: output
  (do
    query fun _ => .ok ()  -- os.fdopen
    appendText temporary manifest.json
    appendText temporary ['\n']
    closeFile temporary
    osReplace temporary (releaseJson :: output)).handle fun e => do
    unlinkMissingOk temporary
    Prog.raise e

/-- The loop of `main` over `FILES`. -/
def copyArchives (source output : Path) : List Archive → List Entry → M (List Entry)
  | [], files => pure files
  | a :: rest, files => do
    copyfile (a.name :: source) (a.name :: output)
    let digest ← sha256 hexdigest (a.name :: output)
    copyArchives source output rest
      (files ++ [⟨a.name.text, a.os, a.arch, a.archiv, digest⟩])

/-- `Path(..).resolve()`: an absolute path none of whose components is a symbolic link. -/
structure Resolver where
  resolve : FS → Str → Except Exn Path
  canonical : ∀ fs s p, resolve fs s = .ok p → ∀ q t, q <:+ p → fs.get q ≠ some (.symlink t)

variable (resolver : Resolver) (parseArguments : List Str → Except Exn Arguments)

/-- The resolution is a query of its own: it looks at the file system and may raise. -/
def resolvePath (s : Str) : M Path := do
  let r ← query fun fs => .ok (resolver.resolve fs s)
  Prog.lift r

/-- `main` up to the end of `write_manifest`. -/
def buildBundle (argv : List Str) : M Manifest := do
  let arguments ← Prog.lift (parseArguments argv)
  require (arguments.type = "compiler".toList) "type must be compiler".toList
  require (arguments.repository = REPOSITORY)
    "repository must be phlyash/riscv-toolchain".toList
  let version ← Prog.lift (normalizeVersion arguments.tag)
  let source ← resolvePath resolver arguments.input
  let output ← resolvePath resolver arguments.output
  require (!pathsOverlap source.str output.str)
    "input and output directories must not overlap".toList
  validateInput source
  prepareOutput output
  let files ← copyArchives hexdigest source output FILES []
  let manifest : Manifest :=
    ⟨1, "compiler".toList, version, arguments.repository, arguments.runId, files⟩
  writeManifest output manifest
  return manifest

/-- `print(line)`, which may fail too. -/
def print (line : Str) : M Unit := fun w =>
  let w' := { w with fault := fun n => w.fault (n + 1) }
  match w.fault 0 with
  | some f => (.error f.exn, w')
  | none => (.ok (), { w' with stdout := w.stdout ++ [line] })

def reportFiles : List Entry → M Unit
  | [] => pure ()
  | e :: rest => do
    print ("profile=".toList ++ e.os ++ ['/'] ++ e.arch ++ ['/'] ++ e.archiv ++
      " sha256=".toList ++ e.sha256)
    reportFiles rest

def report (manifest : Manifest) : M Unit := do
  print ("Prepared bundle: type=".toList ++ manifest.type ++ " version=".toList ++
    manifest.version)
  reportFiles manifest.files

def main (argv : List Str) : M Unit := do
  let manifest ← buildBundle hexdigest resolver parseArguments argv
  report manifest

end Given
end Release
