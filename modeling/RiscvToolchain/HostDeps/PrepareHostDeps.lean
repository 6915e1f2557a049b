import RiscvToolchain.HostDeps.Packages

/- `build/prepare-host-deps.sh`: the static host libraries under `$PREFIX`, over runs that may fail
   or be killed at any command.

   Correspondence (bash ↔ Lean):
     `[ -f "$PREFIX/.complete" ]`  ↔ `complete`, a field beside the files of `Root`, since no
                                     package installs a file of that name
     the packages of the group     ↔ `packages`, and `ncurses` outside Darwin
     the script                    ↔ `prepareHostDeps`
   The versions come from the environment, so each run has its own. `hostDeps_complete` says
   what the marker means: everything under `$PREFIX` is the work of one run, from nothing to the
   last package, however many runs ended early before it and whatever versions later ones ask
   for. -/
namespace HostDeps
open Python Posix Shell Semantics Download

/-- `$PREFIX`, and whether `.complete` is in it. -/
structure Root where
  files : Files
  complete : Bool

def complete : Option Root → Bool
  | some root => root.complete
  | none => false

structure Run where
  versions : Versions
  /-- `uname -s` says `Darwin`. -/
  darwin : Bool
  rm : Removal complete
  mkdir : Event
  /-- The directory was made by a `mkdir` that did not complete. -/
  made : Bool
  cd : Event
  package : Str → PackageFates
  copies : CopyFates
  touch : Event
  /-- The marker was made by a `touch` that did not complete. -/
  touched : Bool

section Script
variable (tools : Tools) (b : Builder) (PREFIX : Str)

def packages (v : Versions) : List Package :=
  let here (option : String) : Str := option.toList ++ PREFIX
  let static : List Str := ["--disable-shared".toList, "--enable-static".toList]
  [⟨"gmp.tar.xz".toList, gmpUrls v, "gmp-".toList ++ v.GMP_VER, [],
      here "--prefix=" :: static, [], ["install".toList]⟩,
    ⟨"mpfr.tar.xz".toList, mpfrUrls v, "mpfr-".toList ++ v.MPFR_VER, [],
      here "--prefix=" :: here "--with-gmp=" :: static, [], ["install".toList]⟩,
    ⟨"mpc.tar.gz".toList, mpcUrls v, "mpc-".toList ++ v.MPC_VER, [],
      here "--prefix=" :: here "--with-gmp=" :: here "--with-mpfr=" :: static, [],
      ["install".toList]⟩,
    ⟨"isl.tar.xz".toList, islUrls v, "isl-".toList ++ v.ISL_VER, [],
      here "--prefix=" :: here "--with-gmp-prefix=" :: static, [], ["install".toList]⟩,
    ⟨"zlib.tar.xz".toList, zlibUrls v, "zlib-".toList ++ v.ZLIB_VER, [],
      ["--static".toList, here "--prefix="], [], ["install".toList]⟩,
    ⟨"expat.tar.xz".toList, expatUrls v, "expat-".toList ++ v.EXPAT_VER, [],
      here "--prefix=" :: static ++ ["--without-docbook".toList, "--without-examples".toList,
        "--without-tests".toList], [], ["install".toList]⟩]

def ncurses (v : Versions) : Package :=
  ⟨"ncurses.tar.gz".toList, ncursesUrls v, "ncurses-".toList ++ v.NCURSES_VER, [],
    ["--prefix=".toList ++ PREFIX, "--without-shared".toList, "--with-normal".toList,
      "--without-debug".toList, "--without-ada".toList, "--without-cxx-binding".toList,
      "--without-progs".toList, "--without-manpages".toList, "--disable-db-install".toList,
      "--enable-widec".toList, "--enable-overwrite".toList], [],
    ["install.libs".toList, "install.includes".toList]⟩

/-- A script for the files of the root. Without the root there is nothing to do it in. -/
def inFiles (x : Script Files Unit) : Script (Option Root) Unit := fun s =>
  match s with
  | some root => ((x root.files).1, some { root with files := (x root.files).2 })
  | none => (.error (.status 1), none)

def makeRoot (s : Option Root) : Option Root := some (s.getD ⟨fun _ => none, false⟩)

def mark (s : Option Root) : Option Root := s.map fun root => { root with complete := true }

def install (r : Run) : Script Files Unit := do
  buildPackages tools b r.package (packages PREFIX r.versions)
  if r.darwin then pure ()
  else do
    buildPackages tools b r.package [ncurses PREFIX r.versions]
    copyCurses r.copies

/-- The script behind its test. -/
def body (r : Run) : Script (Option Root) Unit := do
  rm r.rm none
  command r.mkdir (fun s => some (makeRoot s)) (if r.made then makeRoot else id)
  command r.cd some id
  inFiles (install tools b PREFIX r)
  command r.touch (fun s => some (mark s)) (if r.touched then mark else id)

def prepareHostDeps (r : Run) : Script (Option Root) Unit :=
  guarded complete (body tools b PREFIX r)

/-- What the run's installations make of nothing, one after another. -/
def Built (r : Run) (files : Files) : Prop :=
  ∃ most, Builds tools b r.package (packages PREFIX r.versions) (fun _ => none) most ∧
    if r.darwin then files = most
    else ∃ all, Builds tools b r.package [ncurses PREFIX r.versions] most all ∧ files = copied all

end Script

section Marker
variable {tools : Tools} {b : Builder} {PREFIX : Str} {r : Run}

theorem packages_urls {v : Versions} : ∀ p ∈ packages PREFIX v, p.urls ≠ [] := by
  intro p hp
  simp only [packages, List.mem_cons, List.not_mem_nil, or_false] at hp
  rcases hp with rfl | rfl | rfl | rfl | rfl | rfl
  · exact List.cons_ne_nil _ _
  · exact List.cons_ne_nil _ _
  · exact List.cons_ne_nil _ _
  · exact List.cons_ne_nil _ _
  · exact List.cons_ne_nil _ _
  · exact List.cons_ne_nil _ _

theorem ncurses_urls {v : Versions} : ∀ p ∈ [ncurses PREFIX v], p.urls ≠ [] := by
  intro p hp
  rw [List.mem_singleton.mp hp]
  exact List.cons_ne_nil _ _

theorem install_eq_ok {files : Files}
    (h : install tools b PREFIX r (fun _ => none) = (.ok (), files)) :
    Built tools b PREFIX r files := by
  rw [install, bind_eq_ok] at h
  obtain ⟨_, most, hmost, hrest⟩ := h
  refine ⟨most, buildPackages_eq_ok packages_urls hmost, ?_⟩
  by_cases hdarwin : r.darwin = true
  · rw [if_pos hdarwin] at hrest ⊢
    cases hrest
    rfl
  · rw [if_neg hdarwin, bind_eq_ok] at hrest
    obtain ⟨_, all, hall, hcopy⟩ := hrest
    rw [if_neg hdarwin]
    exact ⟨all, buildPackages_eq_ok ncurses_urls hall, copyCurses_eq_ok hcopy⟩

/-- The marker, if it is there, is in a root that the run has built. -/
def Marked (tools : Tools) (b : Builder) (PREFIX : Str) (r : Run) (s : Option Root) : Prop :=
  complete s = true → ∃ files, s = some ⟨files, true⟩ ∧ Built tools b PREFIX r files

theorem marked_of_not_complete {s : Option Root} (h : complete s = false) :
    Marked tools b PREFIX r s := fun hs => absurd (h.symm.trans hs) Bool.false_ne_true

theorem inFiles_triple {x : Script Files Unit} {before : Files} {Q : Files → Prop}
    (hx : ∀ after, x before = (.ok (), after) → Q after) :
    Triple (fun s => s = some ⟨before, false⟩) (inFiles x)
      (fun _ s => ∃ after, s = some ⟨after, false⟩ ∧ Q after)
      (fun _ s => complete s = false) := by
  rintro s rfl
  rw [inFiles]
  cases hr : x before with
  | mk e after =>
    cases e with
    | ok _ => exact ⟨after, rfl, hx after hr⟩
    | error e => rfl

theorem body_triple (tools : Tools) (b : Builder) (PREFIX : Str) (r : Run) :
    Triple (fun s => complete s = false) (body tools b PREFIX r)
      (fun _ s => ∃ files, s = some ⟨files, true⟩ ∧ Built tools b PREFIX r files)
      (fun _ s => Marked tools b PREFIX r s) := by
  have hrm : Triple (fun s => complete s = false) (rm r.rm (none : Option Root))
      (fun _ s => s = none) (fun _ s => Marked tools b PREFIX r s) :=
    command_triple (fun _ _ _ h => (Option.some.inj h).symm)
      (fun _ _ h _ => marked_of_not_complete (r.rm.left_eq_false h))
      (fun _ h => marked_of_not_complete (r.rm.left_eq_false h))
  refine Triple.bind hrm fun _ => ?_
  have hmade : ∀ s : Option Root, s = none →
      Marked tools b PREFIX r ((if r.made then makeRoot else id) s) := by
    rintro s rfl
    refine marked_of_not_complete ?_
    cases r.made <;> rfl
  refine Triple.bind (Q := fun _ s => s = some ⟨fun _ => none, false⟩) (command_triple ?_
    (fun _ s h _ => hmade s h) hmade) fun _ => ?_
  · rintro s t rfl h
    exact (Option.some.inj h).symm
  refine Triple.bind (Q := fun _ s => s = some ⟨fun _ => none, false⟩) (command_triple ?_ ?_ ?_)
    fun _ => ?_
  · rintro s t rfl h
    exact (Option.some.inj h).symm
  · rintro n s rfl -
    exact marked_of_not_complete rfl
  · rintro s rfl
    exact marked_of_not_complete rfl
  refine Triple.bind (Triple.conseq (inFiles_triple fun after h => install_eq_ok h) (fun _ h => h)
    (fun _ _ h => h) fun _ _ h => marked_of_not_complete h) fun _ => ?_
  have htouched : ∀ s : Option Root,
      (∃ files, s = some ⟨files, false⟩ ∧ Built tools b PREFIX r files) →
      Marked tools b PREFIX r ((if r.touched then mark else id) s) := by
    rintro s ⟨files, rfl, hbuilt⟩
    cases r.touched with
    | true => exact fun _ => ⟨files, rfl, hbuilt⟩
    | false => exact marked_of_not_complete rfl
  refine command_triple ?_ (fun _ s h _ => htouched s h) htouched
  rintro s t ⟨files, rfl, hbuilt⟩ h
  exact ⟨files, (Option.some.inj h).symm, hbuilt⟩

end Marker

/-! Histories of runs. -/

section Histories
variable (tools : Tools) (b : Builder) (PREFIX : Str)

def afterRuns (history : List Run) (s : Option Root) : Option Root :=
  after (fun r s => (prepareHostDeps tools b PREFIX r s).2) history s

variable {tools b PREFIX}

theorem afterRuns_of_complete (history : List Run) {s : Option Root} (h : complete s = true) :
    afterRuns tools b PREFIX history s = s := by
  induction history with
  | nil => rfl
  | cons r history ih =>
    have hr : (prepareHostDeps tools b PREFIX r s).2 = s := by rw [prepareHostDeps, guarded_of_test h]
    have hrest : afterRuns tools b PREFIX (r :: history) s =
        afterRuns tools b PREFIX history (prepareHostDeps tools b PREFIX r s).2 := rfl
    rw [hrest, hr, ih]

theorem prepareHostDeps_marked (r : Run) {s : Option Root} (h : complete s = false) :
    Marked tools b PREFIX r (prepareHostDeps tools b PREFIX r s).2 ∧
      ((prepareHostDeps tools b PREFIX r s).1 = .ok () →
        complete (prepareHostDeps tools b PREFIX r s).2 = true) := by
  rw [prepareHostDeps, guarded_of_not_test h]
  have htriple := body_triple tools b PREFIX r s h
  cases hrun : body tools b PREFIX r s with
  | mk e t =>
    rw [hrun] at htriple
    cases e with
    | ok _ =>
      obtain ⟨files, rfl, hbuilt⟩ := htriple
      exact ⟨fun _ => ⟨files, rfl, hbuilt⟩, fun _ => rfl⟩
    | error e => exact ⟨htriple, nofun⟩

/-- After any runs, each failed or killed anywhere and each with its own versions, a root that has the
    marker holds what one of them made of nothing, package by package, each from the first of its
    archives that passed the check; and a run that returns leaves the marker. -/
theorem hostDeps_complete (history : List Run) (s : Option Root) (hs : complete s = false) :
    (complete (afterRuns tools b PREFIX history s) = true →
      ∃ r ∈ history, ∃ files,
        afterRuns tools b PREFIX history s = some ⟨files, true⟩ ∧ Built tools b PREFIX r files) ∧
    ∀ r, (prepareHostDeps tools b PREFIX r (afterRuns tools b PREFIX history s)).1 = .ok () →
      complete (prepareHostDeps tools b PREFIX r (afterRuns tools b PREFIX history s)).2 = true := by
  constructor
  · induction history generalizing s with
    | nil => exact fun h => absurd (hs.symm.trans h) Bool.false_ne_true
    | cons r history ih =>
      intro h
      have hrest : afterRuns tools b PREFIX (r :: history) s =
          afterRuns tools b PREFIX history (prepareHostDeps tools b PREFIX r s).2 := rfl
      rw [hrest] at h ⊢
      cases hr : complete (prepareHostDeps tools b PREFIX r s).2 with
      | false =>
        obtain ⟨r', hr', files, hfiles⟩ := ih _ hr h
        exact ⟨r', List.mem_cons_of_mem r hr', files, hfiles⟩
      | true =>
        -- the run made the marker, and the later ones pass over
        obtain ⟨files, heq, hbuilt⟩ := (prepareHostDeps_marked r hs).1 hr
        exact ⟨r, List.mem_cons_self, files, (afterRuns_of_complete history hr).trans heq, hbuilt⟩
  · intro r hok
    cases h : complete (afterRuns tools b PREFIX history s) with
    | true => rw [prepareHostDeps, guarded_of_test h, h]
    | false => exact (prepareHostDeps_marked r h).2 hok

end Histories

/-! A run that is killed while MPFR is made, and one that gets to its end. -/

/-- Any bytes are an archive of one entry, and an installation puts the archive under the root. -/
def sampleTools : Tools := ⟨fun _ bytes => some bytes, fun _ => some ["configure".toList]⟩

def sampleBuilder : Builder := fun p bytes files => Function.update files p.archive (some bytes)

def sampleFates (make : Event) : PackageFates :=
  ⟨false, fun _ => .succeeds [1], none, .completes, .completes, make, .completes, fun _ => none⟩

def sampleRun (mpfr : Event) : Run where
  versions := defaultVersions
  darwin := false
  rm := ⟨.completes, fun _ => none, nofun⟩
  mkdir := .completes
  made := false
  cd := .completes
  package := fun archive => sampleFates (if archive = "mpfr.tar.xz".toList then mpfr else .completes)
  copies := ⟨.completes, .completes, fun _ => none, fun _ => none⟩
  touch := .completes
  touched := false

theorem hostDeps_complete_afterKilled : ∃ r ∈ [sampleRun .killed, sampleRun .completes], ∃ files,
    afterRuns sampleTools sampleBuilder "/work/host-deps".toList
        [sampleRun .killed, sampleRun .completes] none = some ⟨files, true⟩ ∧
      Built sampleTools sampleBuilder "/work/host-deps".toList r files :=
  (hostDeps_complete [sampleRun .killed, sampleRun .completes] none rfl).1 (by decide +kernel)

end HostDeps
