import RiscvToolchain.HostDeps.Packages

/- `build/prepare-mingw-deps.sh`: the static libraries of a Windows host in the compiler's own
   sysroot, over runs that may fail or be killed at any command.

   Correspondence (bash ↔ Lean):
     the test in front of `exit 0`    ↔ `inSysroot`
     the packages of the group        ↔ `mingwPackages`
     the script                       ↔ `prepareMingwDeps`
   There is no marker, and nothing is removed first: the sysroot has files that the script did not
   put there, and the test asks for six libraries. A run that ends between the last of them and
   its own end leaves a sysroot that every later run reports as done
   (`mingwDeps_whole_iff`). -/
namespace HostDeps
open Python Posix Shell Semantics Download

/-- A regular file is there, for each library. -/
def inSysroot (files : Files) : Bool :=
  (files "lib/libgmp.a".toList).isSome && (files "lib/libmpfr.a".toList).isSome &&
    (files "lib/libmpc.a".toList).isSome && (files "lib/libz.a".toList).isSome &&
    (files "lib/libexpat.a".toList).isSome &&
    ((files libncursesw).isSome || (files libncurses).isSome)

structure MingwRun where
  versions : Versions
  /-- `command -v tic` and `command -v infocmp` -/
  tic : Str
  infocmp : Str
  /-- The compiler is found, and its sysroot. -/
  compiler : Event
  rm : Event
  mkdir : Event
  cd : Event
  package : Str → PackageFates
  copies : CopyFates

section Script
variable (tools : Tools) (b : Builder) (HOST SYSROOT : Str)

def mingwPackages (r : MingwRun) : List Package :=
  let v := r.versions
  let host : Str := "--host=".toList ++ HOST
  let here (option : String) : Str := option.toList ++ SYSROOT
  let static : List Str := ["--disable-shared".toList, "--enable-static".toList]
  [⟨"gmp.tar.xz".toList, gmpUrls v, "gmp-".toList ++ v.GMP_VER, [],
      host :: here "--prefix=" :: static ++ ["CC_FOR_BUILD=gcc".toList], [], ["install".toList]⟩,
    ⟨"mpfr.tar.xz".toList, mpfrUrls v, "mpfr-".toList ++ v.MPFR_VER, [],
      host :: here "--prefix=" :: here "--with-gmp=" :: static, [], ["install".toList]⟩,
    ⟨"mpc.tar.gz".toList, mpcUrls v, "mpc-".toList ++ v.MPC_VER, [],
      host :: here "--prefix=" :: here "--with-gmp=" :: here "--with-mpfr=" :: static, [],
      ["install".toList]⟩,
    ⟨"zlib.tar.xz".toList, zlibUrls v, "zlib-".toList ++ v.ZLIB_VER,
      ["CHOST=".toList ++ HOST, "CC=".toList ++ HOST ++ "-gcc".toList,
        "AR=".toList ++ HOST ++ "-ar".toList, "RANLIB=".toList ++ HOST ++ "-ranlib".toList],
      ["--static".toList, here "--prefix="], ["libz.a".toList], ["install".toList]⟩,
    ⟨"expat.tar.xz".toList, expatUrls v, "expat-".toList ++ v.EXPAT_VER, [],
      host :: here "--prefix=" :: static ++ ["--without-docbook".toList,
        "--without-examples".toList, "--without-tests".toList], [], ["install".toList]⟩,
    ⟨"ncurses.tar.gz".toList, ncursesUrls v, "ncurses-".toList ++ v.NCURSES_VER,
      ["cf_cv_func_nanosleep=no".toList, "CFLAGS=-O2 -D__USE_MINGW_ACCESS".toList,
        "TIC=".toList ++ r.tic, "INFOCMP=".toList ++ r.infocmp],
      [host, here "--prefix=", "--with-build-cc=gcc".toList, "--without-shared".toList,
        "--with-normal".toList, "--without-debug".toList, "--without-ada".toList,
        "--without-cxx-binding".toList, "--without-progs".toList, "--without-manpages".toList,
        "--without-pthread".toList, "--enable-widec".toList, "--enable-overwrite".toList,
        "--enable-term-driver".toList, "--disable-database".toList, "--disable-db-install".toList,
        ("--with-fallbacks=ansi,vt100,xterm,xterm-256color,screen,screen-256color,cygwin," ++
          "linux").toList], [], ["install.libs".toList, "install.includes".toList]⟩]

/-- The script behind its test. -/
def mingwBody (r : MingwRun) : Script Files Unit := do
  command r.rm some id
  command r.mkdir some id
  command r.cd some id
  buildPackages tools b r.package (mingwPackages HOST SYSROOT r)
  copyCurses r.copies

def prepareMingwDeps (r : MingwRun) : Script Files Unit := do
  command r.compiler some id
  guarded inSysroot (mingwBody tools b HOST SYSROOT r)

end Script

section Whole
variable (tools : Tools) (b : Builder) (HOST SYSROOT : Str)

/-- The sysroot is what some run made of what it found, with all packages and both copies. -/
def Whole (files : Files) : Prop :=
  ∃ (r : MingwRun) (found all : Files),
    Builds tools b r.package (mingwPackages HOST SYSROOT r) found all ∧ files = copied all

def afterMingwRuns (history : List MingwRun) (s : Files) : Files :=
  after (fun r s => (prepareMingwDeps tools b HOST SYSROOT r s).2) history s

/-- A sysroot that a later run takes for a whole one, and that is not. -/
def Unfinished (files : Files) : Prop := Stale inSysroot (Whole tools b HOST SYSROOT) files

variable {tools b HOST SYSROOT}

theorem mingwPackages_urls {r : MingwRun} :
    ∀ p ∈ mingwPackages HOST SYSROOT r, p.urls ≠ [] := by
  intro p hp
  simp only [mingwPackages, List.mem_cons, List.not_mem_nil, or_false] at hp
  rcases hp with rfl | rfl | rfl | rfl | rfl | rfl
  · exact List.cons_ne_nil _ _
  · exact List.cons_ne_nil _ _
  · exact List.cons_ne_nil _ _
  · exact List.cons_ne_nil _ _
  · exact List.cons_ne_nil _ _
  · exact List.cons_ne_nil _ _

theorem mingwBody_whole {r : MingwRun} {s t : Files}
    (h : mingwBody tools b HOST SYSROOT r s = (.ok (), t)) : Whole tools b HOST SYSROOT t := by
  rw [mingwBody, bind_eq_ok] at h
  obtain ⟨_, u, hrm, hrest⟩ := h
  cases (command_eq_ok.mp hrm).2
  obtain ⟨_, u, hmkdir, hrest⟩ := bind_eq_ok.mp hrest
  cases (command_eq_ok.mp hmkdir).2
  obtain ⟨_, u, hcd, hrest⟩ := bind_eq_ok.mp hrest
  cases (command_eq_ok.mp hcd).2
  obtain ⟨_, all, hall, hcopy⟩ := bind_eq_ok.mp hrest
  exact ⟨r, _, all, buildPackages_eq_ok mingwPackages_urls hall, copyCurses_eq_ok hcopy⟩

theorem prepareMingwDeps_skips (r : MingwRun) {s : Files} (h : inSysroot s = true) :
    (prepareMingwDeps tools b HOST SYSROOT r s).2 = s := by
  rw [prepareMingwDeps, Prog.bind_apply]
  unfold command
  cases r.compiler with
  | completes => exact congrArg Prod.snd (guarded_of_test h)
  | fails n => rfl
  | killed => rfl

/-- After any runs, each failed or killed anywhere and each with its own versions, a run that returns
    leaves a whole sysroot exactly when it was not a partial one at the start, and no earlier run
    that went to work left it a partial one. -/
theorem mingwDeps_whole_iff (history : List MingwRun) (r : MingwRun) (s : Files)
    (h : (prepareMingwDeps tools b HOST SYSROOT r
      (afterMingwRuns tools b HOST SYSROOT history s)).1 = .ok ()) :
    Whole tools b HOST SYSROOT (prepareMingwDeps tools b HOST SYSROOT r
        (afterMingwRuns tools b HOST SYSROOT history s)).2 ↔
      ¬ Unfinished tools b HOST SYSROOT s ∧ ¬ ∃ before r' rest, history = before ++ r' :: rest ∧
        inSysroot (afterMingwRuns tools b HOST SYSROOT before s) = false ∧
        Unfinished tools b HOST SYSROOT
          (afterMingwRuns tools b HOST SYSROOT (before ++ [r']) s) := by
  obtain ⟨_, u, hcompiler, hguarded⟩ := bind_eq_ok.mp (Prod.ext h rfl :
    prepareMingwDeps tools b HOST SYSROOT r (afterMingwRuns tools b HOST SYSROOT history s) =
      (.ok (), _))
  cases (command_eq_ok.mp hcompiler).2
  rw [guarded_good_iff (fun _ _ => mingwBody_whole) hguarded, ← not_or]
  have hskip : ∀ (r' : MingwRun) (s : Files), inSysroot (id s) = true →
      id (prepareMingwDeps tools b HOST SYSROOT r' s).2 = id s :=
    fun r' _ h => prepareMingwDeps_skips r' h
  exact not_congr (after_stale_iff hskip history s)

theorem Whole.copied {files : Files} (h : Whole tools b HOST SYSROOT files)
    (hw : (files libncursesw).isSome = true) : files libncurses = files libncursesw := by
  obtain ⟨r, found, all, -, rfl⟩ := h
  rw [HostDeps.copied] at hw ⊢
  by_cases hall : (all libncursesw).isSome = true
  · rw [if_pos hall]
    rfl
  · rw [if_neg hall] at hw
    exact absurd hw hall

end Whole

/-! A run that is killed at the first copy of the wide ncurses library. -/

def anyTools : Tools := ⟨fun _ bytes => some bytes, fun _ => some ["configure".toList]⟩

def libraries : List (Str × Str) :=
  [("gmp.tar.xz".toList, "lib/libgmp.a".toList), ("mpfr.tar.xz".toList, "lib/libmpfr.a".toList),
    ("mpc.tar.gz".toList, "lib/libmpc.a".toList), ("zlib.tar.xz".toList, "lib/libz.a".toList),
    ("expat.tar.xz".toList, "lib/libexpat.a".toList), ("ncurses.tar.gz".toList, libncursesw)]

/-- Each package installs its library. -/
def oneLibrary : Builder := fun p bytes files =>
  match libraries.lookup p.archive with
  | some library => Function.update files library (some bytes)
  | none => files

def sixLibraries : Files := fun path => if path ∈ libraries.map Prod.snd then some [1] else none

def mingwRun (copy : Event) : MingwRun where
  versions := defaultVersions
  tic := "/usr/bin/tic".toList
  infocmp := "/usr/bin/infocmp".toList
  compiler := .completes
  rm := .completes
  mkdir := .completes
  cd := .completes
  package := fun _ => ⟨false, fun _ => .succeeds [1], none, .completes, .completes, .completes,
    .completes, fun _ => none⟩
  copies := ⟨copy, .completes, sixLibraries, fun _ => none⟩

theorem mingwDeps_whole_iff_killedCopy :
    (prepareMingwDeps anyTools oneLibrary "x86_64-w64-mingw32".toList "/mingw".toList
        (mingwRun .completes) (afterMingwRuns anyTools oneLibrary "x86_64-w64-mingw32".toList
          "/mingw".toList [mingwRun .killed] fun _ => none)).1 = .ok () ∧
      ¬ Whole anyTools oneLibrary "x86_64-w64-mingw32".toList "/mingw".toList
        (prepareMingwDeps anyTools oneLibrary "x86_64-w64-mingw32".toList "/mingw".toList
          (mingwRun .completes) (afterMingwRuns anyTools oneLibrary "x86_64-w64-mingw32".toList
            "/mingw".toList [mingwRun .killed] fun _ => none)).2 := by
  have hleft : afterMingwRuns anyTools oneLibrary "x86_64-w64-mingw32".toList "/mingw".toList
      [mingwRun .killed] (fun _ => none) = sixLibraries := rfl
  have hok : (prepareMingwDeps anyTools oneLibrary "x86_64-w64-mingw32".toList "/mingw".toList
      (mingwRun .completes) (afterMingwRuns anyTools oneLibrary "x86_64-w64-mingw32".toList
        "/mingw".toList [mingwRun .killed] fun _ => none)).1 = .ok () := by
    rw [hleft]
    decide +kernel
  refine ⟨hok, fun h => ?_⟩
  refine ((mingwDeps_whole_iff [mingwRun .killed] (mingwRun .completes) _ hok).mp h).2
    ⟨[], _, [], rfl, rfl, ?_⟩
  refine ⟨(congrArg inSysroot hleft).trans (by decide +kernel), fun hwhole => ?_⟩
  have hcopy := Whole.copied (hleft ▸ hwhole) (by decide +kernel)
  exact absurd hcopy (by decide +kernel)

end HostDeps
