import RiscvToolchain.Semantics.Guarded
import RiscvToolchain.Download.FetchSource

/- The packages of `build/prepare-host-deps.sh` and `build/prepare-mingw-deps.sh`, and the part
   that both scripts do for each: fetch the archive, unpack it, and configure, make and install
   it under one root.

   Correspondence (bash ↔ Lean):
     `fetch_source`, under `set -e`            ↔ `fetch`, which calls `Download.fetchSource`
     `tar xf`, and the subshell behind it      ↔ `buildPackage`
     the copies of `libncursesw.a`             ↔ `copyCurses`
   An archive is fetched into a directory made by the run and named only there, so the
   download starts with neither the archive nor its `.part`. What a package's installation makes
   of the files under the root is a function of the archive, of the arguments and of those files
   (`Builder`), in which the packages installed before it are found; the rest is the
   world's (`PackageFates`). `Builds` is what the list of packages comes to, one after another. -/
namespace HostDeps
open Python Posix Shell Semantics Download
variable {α : Type}

structure Package where
  archive : Str
  urls : List Str
  dir : Str
  environment : List Str
  configure : List Str
  make : List Str
  install : List Str
  deriving DecidableEq, Repr

/-- The files under the root. -/
abbrev Files : Type := Str → Option Bytes

/-- What the installation of a package makes of the files. -/
abbrev Builder : Type := Package → Bytes → Files → Files

structure PackageFates where
  killedInFetch : Bool
  curl : Str → Curl
  mvFails : Option Nat
  tar : Event
  configure : Event
  make : Event
  install : Event
  /-- What an installation leaves that does not complete. -/
  afterInstall : Files

section Script
variable (tools : Tools) (b : Builder)

def mirrorsOf (f : PackageFates) (p : Package) : List Mirror := p.urls.map fun url => ⟨url, f.curl url⟩

/-- A call that returns 0 without an archive fails at `tar`. -/
def fetch (f : PackageFates) (p : Package) : Script Files Bytes := fun s =>
  if f.killedInFetch then (.error .killed, s)
  else match fetchSource ⟨tools, true, f.mvFails⟩ p.archive (mirrorsOf f p) ⟨none, none, [], []⟩ with
    | (.returns 0, w) =>
      match w.destination with
      | some bytes => (.ok bytes, s)
      | none => (.error (.status 2), s)
    | (.returns status, _) => (.error (.status status), s)
    | (.exits status, _) => (.error (.status status), s)

def buildPackage (f : PackageFates) (p : Package) : Script Files Unit := do
  let bytes ← fetch tools f p
  command f.tar some id
  command f.configure some id
  command f.make some id
  command f.install (fun files => some (b p bytes files)) fun _ => f.afterInstall

def buildPackages (f : Str → PackageFates) : List Package → Script Files Unit
  | [] => pure ()
  | p :: rest => do
    buildPackage tools b (f p.archive) p
    buildPackages f rest

end Script

/-! What the packages come to. -/

section Builds
variable (tools : Tools) (b : Builder) (f : Str → PackageFates)

/-- Each package is installed once, from the first of its archives that passes the check, over what
    the packages before it have made. -/
def Builds : List Package → Files → Files → Prop
  | [], before, after => after = before
  | p :: rest, before, after => ∃ bytes,
      firstPassing ⟨tools, true, none⟩ p.archive (mirrorsOf (f p.archive) p) = some bytes ∧
        Builds rest (b p bytes before) after

variable {tools b f}

/-- A fetch that returns has the bytes of the first mirror that passes. -/
theorem fetch_eq_ok {f : PackageFates} {p : Package} (hp : p.urls ≠ []) {s t : Files}
    {bytes : Bytes} (h : fetch tools f p s = (.ok bytes, t)) :
    t = s ∧ firstPassing ⟨tools, true, none⟩ p.archive (mirrorsOf f p) = some bytes := by
  have hne : mirrorsOf f p ≠ [] := fun hnil => hp (List.map_eq_nil_iff.mp hnil)
  have hatomic : Atomic ⟨tools, true, f.mvFails⟩ p.archive (mirrorsOf f p) ⟨none, none, [], []⟩ := by
    cases hfirst : firstPassing ⟨tools, true, f.mvFails⟩ p.archive (mirrorsOf f p) with
    | none => exact atomic_of_none hne hfirst
    | some bytes => exact (atomic_iff_of_some hne hfirst).mpr (Or.inl rfl)
  rw [fetch] at h
  split at h
  · cases h
  · split at h
    · rename_i w hw
      obtain ⟨bytes', hfirst, hdest⟩ := hatomic.success w hw
      rw [hdest] at h
      cases h
      exact ⟨rfl, hfirst⟩
    · cases h
    · cases h

theorem buildPackage_eq_ok {f : PackageFates} {p : Package} (hp : p.urls ≠ []) {s t : Files}
    (h : buildPackage tools b f p s = (.ok (), t)) :
    ∃ bytes, firstPassing ⟨tools, true, none⟩ p.archive (mirrorsOf f p) = some bytes ∧
      t = b p bytes s := by
  rw [buildPackage, bind_eq_ok] at h
  obtain ⟨bytes, u, hfetch, hrest⟩ := h
  obtain ⟨rfl, hfirst⟩ := fetch_eq_ok hp hfetch
  obtain ⟨_, u, htar, hrest⟩ := bind_eq_ok.mp hrest
  cases (command_eq_ok.mp htar).2
  obtain ⟨_, u, hconfigure, hrest⟩ := bind_eq_ok.mp hrest
  cases (command_eq_ok.mp hconfigure).2
  obtain ⟨_, u, hmake, hrest⟩ := bind_eq_ok.mp hrest
  cases (command_eq_ok.mp hmake).2
  cases (command_eq_ok.mp hrest).2
  exact ⟨bytes, hfirst, rfl⟩

theorem buildPackages_eq_ok {l : List Package} (hl : ∀ p ∈ l, p.urls ≠ []) {s t : Files}
    (h : buildPackages tools b f l s = (.ok (), t)) : Builds tools b f l s t := by
  induction l generalizing s with
  | nil =>
    cases h
    rfl
  | cons p rest ih =>
    obtain ⟨hp, hrest⟩ := List.forall_mem_cons.mp hl
    obtain ⟨_, u, hpackage, h⟩ := bind_eq_ok.mp h
    obtain ⟨bytes, hfirst, rfl⟩ := buildPackage_eq_ok hp hpackage
    exact ⟨bytes, hfirst, ih hrest h⟩

end Builds

/-! The copies of the wide ncurses library. -/

def libncursesw : Str := "lib/libncursesw.a".toList
def libncurses : Str := "lib/libncurses.a".toList
def libcurses : Str := "lib/libcurses.a".toList

structure CopyFates where
  ncurses : Event
  curses : Event
  afterNcurses : Files
  afterCurses : Files

def copyCurses (f : CopyFates) : Script Files Unit := do
  let files ← look
  if (files libncursesw).isSome then do
    command f.ncurses (fun s => some (Function.update s libncurses (s libncursesw))) fun _ => f.afterNcurses
    command f.curses (fun s => some (Function.update s libcurses (s libncursesw))) fun _ => f.afterCurses
  else pure ()

/-- With the wide library there, the two others are it. -/
def copied (files : Files) : Files :=
  if (files libncursesw).isSome then
    Function.update (Function.update files libncurses (files libncursesw)) libcurses
      (files libncursesw)
  else files

theorem copyCurses_eq_ok {f : CopyFates} {s t : Files} (h : copyCurses f s = (.ok (), t)) :
    t = copied s := by
  obtain ⟨_, _, hlook, h⟩ := bind_eq_ok.mp h
  cases hlook
  rw [copied]
  by_cases hw : (s libncursesw).isSome = true
  · rw [if_pos hw] at h ⊢
    obtain ⟨_, u, hcp, h⟩ := bind_eq_ok.mp h
    cases (command_eq_ok.mp hcp).2
    cases (command_eq_ok.mp h).2
    rw [Function.update_of_ne (by decide)]
  · rw [if_neg hw] at h ⊢
    cases h
    rfl

/-! The packages' versions and sources. -/

structure Versions where
  GMP_VER : Str
  MPFR_VER : Str
  MPC_VER : Str
  ISL_VER : Str
  ZLIB_VER : Str
  EXPAT_VER : Str
  NCURSES_VER : Str
  deriving DecidableEq, Repr

def defaultVersions : Versions :=
  ⟨"6.3.0".toList, "4.2.2".toList, "1.3.1".toList, "0.27".toList, "1.3.1".toList, "2.8.2".toList,
    "6.6".toList⟩

/-- `R_$(echo "$EXPAT_VER" | tr . _)` -/
def expatTag (v : Versions) : Str := "R_".toList ++ v.EXPAT_VER.map fun c => if c = '.' then '_' else c

/-- The archive of a version on each of the servers. -/
def atServers (servers : List String) (name version suffix : Str) : List Str :=
  servers.map fun server => server.toList ++ name ++ '-' :: version ++ suffix

section Sources
variable (v : Versions)

def gmpUrls : List Str := atServers
  ["https://gmplib.org/download/gmp/", "https://ftpmirror.gnu.org/gmp/", "https://ftp.gnu.org/gnu/gmp/"]
  "gmp".toList v.GMP_VER ".tar.xz".toList

def mpfrUrls : List Str :=
  ("https://www.mpfr.org/mpfr-".toList ++ v.MPFR_VER ++ "/mpfr-".toList ++ v.MPFR_VER ++
    ".tar.xz".toList) ::
  atServers ["https://ftpmirror.gnu.org/mpfr/", "https://ftp.gnu.org/gnu/mpfr/"]
    "mpfr".toList v.MPFR_VER ".tar.xz".toList

def mpcUrls : List Str := atServers
  ["https://www.multiprecision.org/downloads/", "https://ftpmirror.gnu.org/mpc/",
    "https://ftp.gnu.org/gnu/mpc/"]
  "mpc".toList v.MPC_VER ".tar.gz".toList

def islUrls : List Str :=
  atServers ["https://libisl.sourceforge.io/"] "isl".toList v.ISL_VER ".tar.xz".toList

def zlibUrls : List Str :=
  ["https://github.com/madler/zlib/releases/download/v".toList ++ v.ZLIB_VER ++ "/zlib-".toList ++
    v.ZLIB_VER ++ ".tar.xz".toList]

def expatUrls : List Str :=
  ["https://github.com/libexpat/libexpat/releases/download/".toList ++ expatTag v ++
    "/expat-".toList ++ v.EXPAT_VER ++ ".tar.xz".toList]

def ncursesUrls : List Str := atServers
  ["https://invisible-mirror.net/archives/ncurses/", "https://ftpmirror.gnu.org/ncurses/",
    "https://ftp.gnu.org/gnu/ncurses/"]
  "ncurses".toList v.NCURSES_VER ".tar.gz".toList

end Sources
end HostDeps
