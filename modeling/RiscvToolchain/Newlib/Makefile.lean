import RiscvToolchain.Semantics.MakeRuns

/- The rules of `Makefile.in` that `make newlib` needs, and what a parallel `make` does with them.

   Correspondence (Makefile.in ↔ Lean):
     `$(GCC_SRCDIR)`, `$(GCC_SRC_GIT)`, …  ↔ `File.srcdir`, `File.srcGit`, a prerequisite where
                                             the sources are those of the repository
     `stamps/…`                            ↔ `Stamp`
     `$(PREPARATION_STAMP)`                ↔ `PREPARATION_STAMP`
     the prerequisites of a stamp          ↔ `prereqs`, and its recipe, line by line, `recipe`
     the prerequisites of `newlib`         ↔ `newlib`
   A line of a recipe is a shell of its own, and a comment line is none. `touch $@` stands at the
   end of the last line of every recipe, and `rm -rf $@` at the start of all but two; that the
   old stamp is still there while those two run does no harm, because it is older than a
   prerequisite. Submodules are checked out, `download_prerequisites` is not needed, and every
   line ends, or fails.

   Over any runs, each of them parallel, killed, failed or whole, and any changes of the sources
   between them: a run that returns has made each stamp from what it needs (`newlib_built`); the
   recipes that run at one time do not need each other (`newlib_sideBySide`); a run ends, with
   the goal made unless a recipe failed (`newlib_ends`); and after changes of sources the stamps
   that come of them are made anew, and no others (`newlib_rebuilt`). -/
namespace Newlib
open Make

inductive Source
  | gcc | binutils | newlib | gdb | llvm
  deriving DecidableEq, Repr

inductive Stamp
  | checkWritePermission | installHostGcc | buildBinutilsNewlib | buildGdbNewlib
  | buildGccNewlibStage1 | buildNewlib | buildNewlibNano | mergeNewlibNano
  | buildGccNewlibStage2 | buildLlvmNewlib
  deriving DecidableEq, Repr

inductive File
  | srcdir (s : Source)
  | srcGit (s : Source)
  | stamp (t : Stamp)
  deriving DecidableEq, Repr

instance : Fintype Source where
  elems := {.gcc, .binutils, .newlib, .gdb, .llvm}
  complete s := by cases s <;> decide

instance : Fintype Stamp where
  elems := {.checkWritePermission, .installHostGcc, .buildBinutilsNewlib, .buildGdbNewlib,
    .buildGccNewlibStage1, .buildNewlib, .buildNewlibNano, .mergeNewlibNano,
    .buildGccNewlibStage2, .buildLlvmNewlib}
  complete t := by cases t <;> decide

instance : Fintype File where
  elems := Finset.univ.image File.srcdir ∪ Finset.univ.image File.srcGit ∪
    Finset.univ.image File.stamp
  complete f := by cases f <;> simp

/-- What `configure` decided. -/
structure Config where
  /-- The sources lie in the repository. -/
  inRepository : Source → Bool
  enableHostGcc : Bool
  enableGdb : Bool
  enableLlvm : Bool
  gdbTargetMakeFlagsExtra : Bool

/-- Without arguments. -/
def Config.defaults : Config where
  inRepository _ := true
  enableHostGcc := false
  enableGdb := true
  enableLlvm := false
  gdbTargetMakeFlagsExtra := false

section Rules
variable (c : Config)

/-- `$(GCC_SRCDIR) $(GCC_SRC_GIT)`, and the like. -/
def sources (s : Source) : List File :=
  .srcdir s :: if c.inRepository s then [.srcGit s] else []

def PREPARATION_STAMP : List File :=
  .stamp .checkWritePermission :: if c.enableHostGcc then [.stamp .installHostGcc] else []

def prereqs : Stamp → List File
  | .checkWritePermission => []
  | .installHostGcc => sources c .gcc
  | .buildBinutilsNewlib => sources c .binutils ++ PREPARATION_STAMP c
  | .buildGdbNewlib => sources c .gdb ++ PREPARATION_STAMP c
  | .buildGccNewlibStage1 => sources c .gcc ++ [.stamp .buildBinutilsNewlib]
  | .buildNewlib => sources c .newlib ++ [.stamp .buildGccNewlibStage1]
  | .buildNewlibNano => sources c .newlib ++ [.stamp .buildGccNewlibStage1]
  | .mergeNewlibNano => [.stamp .buildNewlibNano, .stamp .buildNewlib]
  | .buildGccNewlibStage2 => sources c .gcc ++ [.stamp .buildNewlib, .stamp .mergeNewlibNano]
  | .buildLlvmNewlib =>
    sources c .llvm ++ sources c .binutils ++ [.stamp .buildGccNewlibStage2]

def recipe : Stamp → List Command
  -- mkdir, rm of the directory
  | .checkWritePermission => [.work, .work, .touch]
  -- download_prerequisites, rm, mkdir, configure, make, make install
  | .installHostGcc => [.work, .rm, .work, .work, .work, .work, .touch]
  -- rm, mkdir, configure, make, make install
  | .buildBinutilsNewlib => [.rm, .work, .work, .work, .work, .touch]
  -- and gdb.exe is removed and linked again, if there are flags for that
  | .buildGdbNewlib => [.rm, .work, .work, .work] ++
      (if c.gdbTargetMakeFlagsExtra then [.work, .work] else []) ++ [.work, .touch]
  | .buildGccNewlibStage1 => [.work, .rm, .work, .work, .work, .work, .touch]
  | .buildNewlib => [.rm, .work, .work, .work, .work, .touch]
  | .buildNewlibNano => [.rm, .work, .work, .work, .work, .touch]
  -- the choice of a compiler, the loop, and the header with the stamp
  | .mergeNewlibNano => [.work, .work, .touch]
  | .buildGccNewlibStage2 => [.rm, .work, .work, .work, .work, .touch]
  -- rm, mkdir, cmake, make, make install, the links
  | .buildLlvmNewlib => [.rm, .work, .work, .work, .work, .work, .touch]

theorem recipe_ends (t : Stamp) : ToTouch (recipe c t) := by
  cases t with
  | checkWritePermission | mergeNewlibNano => exact ⟨[.work, .work], rfl, by decide⟩
  | installHostGcc | buildGccNewlibStage1 =>
    exact ⟨[.work, .rm, .work, .work, .work, .work], rfl, by decide⟩
  | buildBinutilsNewlib | buildNewlib | buildNewlibNano | buildGccNewlibStage2 =>
    exact ⟨[.rm, .work, .work, .work, .work], rfl, by decide⟩
  | buildLlvmNewlib => exact ⟨[.rm, .work, .work, .work, .work, .work], rfl, by decide⟩
  | buildGdbNewlib =>
    rw [recipe]
    cases c.gdbTargetMakeFlagsExtra with
    | true => exact ⟨[.rm, .work, .work, .work, .work, .work, .work], rfl, by decide⟩
    | false => exact ⟨[.rm, .work, .work, .work, .work], rfl, by decide⟩

/-- The length of the longest chain of stamps below a stamp. -/
def Stamp.depth : Stamp → Nat
  | .checkWritePermission | .installHostGcc => 1
  | .buildBinutilsNewlib | .buildGdbNewlib => 2
  | .buildGccNewlibStage1 => 3
  | .buildNewlib | .buildNewlibNano => 4
  | .mergeNewlibNano => 5
  | .buildGccNewlibStage2 => 6
  | .buildLlvmNewlib => 7

def File.depth : File → Nat
  | .srcdir _ | .srcGit _ => 0
  | .stamp t => t.depth

theorem mem_sources {c : Config} {s : Source} {f : File} (h : f ∈ sources c s) :
    f = .srcdir s ∨ f = .srcGit s := by
  rw [sources, List.mem_cons] at h
  rcases h with rfl | h
  · exact Or.inl rfl
  · split at h
    · exact Or.inr (List.mem_singleton.mp h)
    · cases h

theorem depth_of_mem_sources {s : Source} {f : File} (h : f ∈ sources c s) : f.depth = 0 := by
  rcases mem_sources h with rfl | rfl
  · rfl
  · rfl

theorem depth_of_mem_preparation {f : File} (h : f ∈ PREPARATION_STAMP c) : f.depth = 1 := by
  rw [PREPARATION_STAMP, List.mem_cons] at h
  rcases h with rfl | h
  · rfl
  · split at h
    · rw [List.mem_singleton.mp h]
      rfl
    · cases h

theorem depth_lt (t : Stamp) {f : File} (h : f ∈ prereqs c t) : f.depth < t.depth := by
  have hsources (s : Source) (hs : f ∈ sources c s) : f.depth < t.depth := by
    rw [depth_of_mem_sources c hs]
    cases t <;> decide
  cases t with
  | checkWritePermission => cases h
  | installHostGcc => exact hsources _ h
  | buildBinutilsNewlib | buildGdbNewlib =>
    rcases List.mem_append.mp h with h | h
    · exact hsources _ h
    · rw [depth_of_mem_preparation c h]
      decide
  | buildGccNewlibStage1 | buildNewlib | buildNewlibNano =>
    rcases List.mem_append.mp h with h | h
    · exact hsources _ h
    · rw [List.mem_singleton.mp h]
      decide
  | mergeNewlibNano =>
    simp only [prereqs, List.mem_cons, List.not_mem_nil, or_false] at h
    rcases h with rfl | rfl <;> decide
  | buildGccNewlibStage2 =>
    rcases List.mem_append.mp h with h | h
    · exact hsources _ h
    · simp only [List.mem_cons, List.not_mem_nil, or_false] at h
      rcases h with rfl | rfl <;> decide
  | buildLlvmNewlib =>
    rcases List.mem_append.mp h with h | h
    · rcases List.mem_append.mp h with h | h
      · exact hsources _ h
      · exact hsources _ h
    · rw [List.mem_singleton.mp h]
      decide

def makefile : Makefile File where
  rule
    | .stamp t => some ⟨prereqs c t, recipe c t, recipe_ends c t⟩
    | _ => none
  rank := File.depth
  rank_lt := by
    intro f r hr p hp
    cases f with
    | srcdir | srcGit => cases hr
    | stamp t =>
      cases hr
      exact depth_lt c t hp

/-- The prerequisites of the goal. -/
def newlib : List File :=
  .stamp .buildGccNewlibStage2 :: (if c.enableGdb then [.stamp .buildGdbNewlib] else []) ++
    if c.enableLlvm then [.stamp .buildLlvmNewlib] else []

/-- The run is over, and has made the goal. -/
def Returns (s : State File) : Prop := (∀ g ∈ newlib c, g ∈ s.done) ∧ ∀ f, s.running f = none

/-- What the goal needs. -/
def NeededByNewlib (f : File) : Prop := ∃ g ∈ newlib c, Needs (makefile c) g f

def configured : Stamp → Bool
  | .installHostGcc => c.enableHostGcc
  | .buildGdbNewlib => c.enableGdb
  | .buildLlvmNewlib => c.enableLlvm
  | _ => true

/-- The stamps that a change of the sources is to make anew. -/
def rebuilt : Source → Stamp → Bool
  | .gcc, t =>
    t = .installHostGcc ∨ if c.enableHostGcc then t ≠ .checkWritePermission else 3 ≤ t.depth
  | .binutils, t => t ≠ .buildGdbNewlib ∧ 2 ≤ t.depth
  | .newlib, t => 4 ≤ t.depth
  | .gdb, t => t = .buildGdbNewlib
  | .llvm, t => t = .buildLlvmNewlib

def rebuiltBy : File → Stamp → Bool
  | .srcdir s, t | .srcGit s, t => rebuilt c s t
  | .stamp _, _ => false

end Rules

/-! What the goal needs. -/

section Needed
variable {c : Config} {t u : Stamp}

theorem needs_of_mem {f : File} (h : f ∈ prereqs c t) : Needs (makefile c) (.stamp t) f :=
  .single ⟨_, rfl, h⟩

/-- A stamp needs those that are one below it; but for gdb they are one line. -/
theorem mem_prereqs_of_depth (ht : t ≠ .buildGdbNewlib) (hu : u ≠ .buildGdbNewlib)
    (hc : configured c u = true) (hdepth : u.depth + 1 = t.depth) : .stamp u ∈ prereqs c t := by
  cases t <;> cases u <;> simp_all [prereqs, PREPARATION_STAMP, configured, Stamp.depth]

theorem exists_below (ht : 1 < t.depth) :
    ∃ p, p ≠ .buildGdbNewlib ∧ configured c p = true ∧ p.depth + 1 = t.depth := by
  cases t with
  | checkWritePermission | installHostGcc => exact absurd ht (by decide)
  | buildBinutilsNewlib | buildGdbNewlib => exact ⟨.checkWritePermission, by simp, rfl, rfl⟩
  | buildGccNewlibStage1 => exact ⟨.buildBinutilsNewlib, by simp, rfl, rfl⟩
  | buildNewlib | buildNewlibNano => exact ⟨.buildGccNewlibStage1, by simp, rfl, rfl⟩
  | mergeNewlibNano => exact ⟨.buildNewlib, by simp, rfl, rfl⟩
  | buildGccNewlibStage2 => exact ⟨.mergeNewlibNano, by simp, rfl, rfl⟩
  | buildLlvmNewlib => exact ⟨.buildGccNewlibStage2, by simp, rfl, rfl⟩

theorem depth_pos (t : Stamp) : 0 < t.depth := by
  cases t <;> decide

theorem needs_of_depth_lt (ht : t ≠ .buildGdbNewlib) (hu : u ≠ .buildGdbNewlib)
    (hc : configured c u = true) (hdepth : u.depth < t.depth) :
    Needs (makefile c) (.stamp t) (.stamp u) := by
  induction hn : t.depth generalizing t with
  | zero => omega
  | succ n ih =>
    by_cases hnext : u.depth + 1 = t.depth
    · exact needs_of_mem (mem_prereqs_of_depth ht hu hc hnext)
    · have hpos := depth_pos u
      obtain ⟨p, hp, hcp, hbelow⟩ := exists_below (c := c) (t := t) (by omega)
      have hneeds := needs_of_mem (mem_prereqs_of_depth ht hp hcp hbelow)
      exact hneeds.trans (ih hp (by omega) (by omega))

theorem gdb_needs (hc : configured c u = true) (hdepth : u.depth = 1) :
    Needs (makefile c) (.stamp .buildGdbNewlib) (.stamp u) := by
  apply needs_of_mem
  cases u <;> simp_all [prereqs, PREPARATION_STAMP, configured, Stamp.depth]

theorem needed_of_configured (h : configured c t = true) : NeededByNewlib c (.stamp t) := by
  cases t with
  | buildGccNewlibStage2 => exact ⟨.stamp .buildGccNewlibStage2, by simp [newlib], .refl⟩
  | buildGdbNewlib =>
    exact ⟨.stamp .buildGdbNewlib, by simp [newlib, show c.enableGdb = true from h], .refl⟩
  | buildLlvmNewlib =>
    exact ⟨.stamp .buildLlvmNewlib, by simp [newlib, show c.enableLlvm = true from h], .refl⟩
  | checkWritePermission | installHostGcc | buildBinutilsNewlib | buildGccNewlibStage1
  | buildNewlib | buildNewlibNano | mergeNewlibNano =>
    refine ⟨.stamp .buildGccNewlibStage2, by simp [newlib], ?_⟩
    exact needs_of_depth_lt (by simp) (by simp) h (by decide)

theorem neededByNewlib_closed (f g : File) (hf : NeededByNewlib c f)
    (hneeds : Needs (makefile c) f g) : NeededByNewlib c g := by
  obtain ⟨goal, hgoal, hf⟩ := hf
  exact ⟨goal, hgoal, hf.trans hneeds⟩

theorem prereqs_of_sources {src : Source} {f : File} (hf : f ∈ sources c src) :
    (makefile c).prereqs f = none := by
  rcases mem_sources hf with rfl | rfl
  · rfl
  · rfl

/-- `rebuilt`, of sources too. -/
def Rebuilt (c : Config) (src : Source) : File → Prop
  | .srcdir s | .srcGit s => s = src
  | .stamp t => rebuilt c src t = true

theorem rebuilt_of_mem {src : Source} {f : File} (hf : Rebuilt c src f) (h : f ∈ prereqs c t) :
    rebuilt c src t = true := by
  cases f with
  | srcdir s | srcGit s =>
    obtain rfl : s = src := hf
    cases t <;> cases s <;>
      simp_all [prereqs, sources, PREPARATION_STAMP, rebuilt, Stamp.depth]
  | stamp u =>
    have hlt : u.depth < t.depth := depth_lt c t h
    have hgdb : u ≠ .buildGdbNewlib := by
      rintro rfl
      cases t <;> simp [prereqs, sources, PREPARATION_STAMP] at h
    have hpos := depth_pos u
    have hne (v : Stamp) (hv : v.depth ≤ u.depth) : t ≠ v := by
      rintro rfl
      omega
    cases src with
    | gcc =>
      simp only [Rebuilt, rebuilt, decide_eq_true_eq] at hf ⊢
      right
      split
      next => exact hne .checkWritePermission hpos
      next hhost =>
        rcases hf with rfl | hf
        · -- the preparation makes no gcc
          cases t <;> simp [prereqs, sources, PREPARATION_STAMP, hhost] at h
        · rw [if_neg hhost] at hf
          omega
    | binutils =>
      simp only [Rebuilt, rebuilt, decide_eq_true_eq] at hf ⊢
      exact ⟨hne .buildGdbNewlib hf.2, by omega⟩
    | newlib =>
      simp only [Rebuilt, rebuilt, decide_eq_true_eq] at hf ⊢
      omega
    | gdb =>
      simp only [Rebuilt, rebuilt, decide_eq_true_eq] at hf
      exact absurd hf hgdb
    | llvm =>
      simp only [Rebuilt, rebuilt, decide_eq_true_eq] at hf
      subst hf
      cases t <;> simp [Stamp.depth] at hlt

/-- A stamp needs sources that it has, or that one below it has. -/
theorem needs_of_sources {src : Source} {f : File} (hf : f ∈ sources c src) (d : Stamp)
    (hd : ∀ g ∈ sources c src, g ∈ prereqs c d) (hdgdb : d ≠ .buildGdbNewlib)
    (hc : configured c d = true) (h : t = d ∨ (t ≠ .buildGdbNewlib ∧ d.depth < t.depth)) :
    Needs (makefile c) (.stamp t) f := by
  have hneeds : Needs (makefile c) (.stamp d) f := needs_of_mem (hd f hf)
  rcases h with rfl | ⟨htgdb, hlt⟩
  · exact hneeds
  · exact (needs_of_depth_lt htgdb hdgdb hc hlt).trans hneeds

theorem needs_of_rebuilt {src : Source} {f : File} (hf : f ∈ sources c src)
    (hc : configured c t = true) (h : rebuilt c src t = true) :
    Needs (makefile c) (.stamp t) f := by
  cases src with
  | gcc =>
    simp only [rebuilt, decide_eq_true_eq] at h
    have hinstall : Needs (makefile c) (.stamp .installHostGcc) f := needs_of_mem hf
    by_cases hhost : c.enableHostGcc = true
    · by_cases hgdb : t = .buildGdbNewlib
      · subst hgdb
        exact (gdb_needs (show configured c .installHostGcc = true from hhost) rfl).trans hinstall
      · apply needs_of_sources hf .installHostGcc (fun g hg => hg) (by simp) hhost
        cases t <;> simp_all [Stamp.depth]
    · rcases h with rfl | h
      · exact hinstall
      · rw [if_neg hhost] at h
        apply needs_of_sources hf .buildGccNewlibStage1 _ (by simp) rfl
        · cases t <;> simp_all [Stamp.depth]
        · exact fun g hg => List.mem_append_left _ hg
  | binutils =>
    simp only [rebuilt, decide_eq_true_eq] at h
    apply needs_of_sources hf .buildBinutilsNewlib _ (by simp) rfl
    · cases t <;> simp_all [Stamp.depth]
    · exact fun g hg => List.mem_append_left _ hg
  | newlib =>
    simp only [rebuilt, decide_eq_true_eq] at h
    by_cases hnano : t = .buildNewlibNano
    · subst hnano
      exact needs_of_mem (List.mem_append_left _ hf)
    · apply needs_of_sources hf .buildNewlib _ (by simp) rfl
      · cases t <;> simp_all [Stamp.depth]
      · exact fun g hg => List.mem_append_left _ hg
  | gdb =>
    obtain rfl : t = .buildGdbNewlib := by simpa [rebuilt] using h
    exact needs_of_mem (List.mem_append_left _ hf)
  | llvm =>
    obtain rfl : t = .buildLlvmNewlib := by simpa [rebuilt] using h
    exact needs_of_mem (List.mem_append_left _ (List.mem_append_left _ hf))

theorem needs_source_iff {src : Source} {f : File} (hf : f ∈ sources c src)
    (hc : configured c t = true) :
    Needs (makefile c) (.stamp t) f ↔ rebuiltBy c f t = true := by
  have hbase : Rebuilt c src f ∧ rebuiltBy c f t = rebuilt c src t := by
    rcases mem_sources hf with rfl | rfl
    · exact ⟨rfl, rfl⟩
    · exact ⟨rfl, rfl⟩
  rw [hbase.2]
  refine ⟨fun h => ?_, needs_of_rebuilt hf hc⟩
  have hneeds (g : File) (hg : Needs (makefile c) g f) : Rebuilt c src g := by
    induction hg using Relation.ReflTransGen.head_induction_on with
    | refl => exact hbase.1
    | @head g p hstep _ ih =>
      obtain ⟨ps, hrule, hp⟩ := hstep
      cases g with
      | srcdir | srcGit => cases hrule
      | stamp u =>
        cases hrule
        exact rebuilt_of_mem ih hp
  exact hneeds _ h

end Needed

/-! What a build leaves. -/

section Builds
variable {c : Config} {s s' : State File}

theorem reachable_of_steps (h : Reachable (makefile c) s)
    (hsteps : Relation.ReflTransGen (Step (makefile c)) (.fresh s.log) s') :
    Reachable (makefile c) s' := by
  have hfresh : Reachable (makefile c) (.fresh s.log) := h.tail .anew
  induction hsteps with
  | refl => exact hfresh
  | tail _ hstep ih => exact ih.tail (.step hstep)

theorem exists_returns (h : Reachable (makefile c) s) :
    ∃ s', Relation.ReflTransGen (StepFor (makefile c) (NeededByNewlib c)) (.fresh s.log) s' ∧
      s'.failed = false ∧ (∀ s'', ¬ StepFor (makefile c) (NeededByNewlib c) s' s'') ∧
      Returns c s' := by
  have hfresh := (inv_of_reachable h).fresh
  obtain ⟨s', hsteps, hgoes, hidle, hdone⟩ := exists_return neededByNewlib_closed hfresh
  refine ⟨s', hsteps, hgoes, ?_, fun g hg => hdone g ⟨g, hg, .refl⟩, hidle⟩
  exact stuck_of_done (hfresh.steps (steps_of_stepsFor hsteps)) hidle hdone

/-- The stamps that are made side by side: those of one depth, and gdb beside all that come after
    the preparation. -/
def sideBySide (t u : Stamp) : Prop :=
  t.depth = u.depth ∨ (t = .buildGdbNewlib ∧ 1 < u.depth) ∨ (u = .buildGdbNewlib ∧ 1 < t.depth)

/-- Of two recipes that run, neither needs the other; `merge-newlib-nano` runs beside neither of
    the libraries, and no two recipes install gcc at once. -/
theorem newlib_sideBySide (h : Reachable (makefile c) s) {t u : Stamp}
    (ht : configured c t = true) (hu : configured c u = true)
    (htruns : s.running (.stamp t) ≠ none) (huruns : s.running (.stamp u) ≠ none) :
    sideBySide t u := by
  have hapart {t u : Stamp} (htruns : s.running (.stamp t) ≠ none)
      (huruns : s.running (.stamp u) ≠ none) (hne : t ≠ u) :
      ¬ Needs (makefile c) (.stamp t) (.stamp u) := by
    intro hneeds
    rcases Relation.ReflTransGen.cases_head hneeds with heq | ⟨p, ⟨ps, hrule, hp⟩, hpu⟩
    · exact hne (File.stamp.inj heq)
    · obtain ⟨lines, hlines⟩ := Option.ne_none_iff_exists'.mp htruns
      exact huruns (not_running_of_needs h hlines hrule hp hpu)
  have hgdb {u : Stamp} (hu : configured c u = true) (huruns : s.running (.stamp u) ≠ none)
      (hgdb : s.running (.stamp .buildGdbNewlib) ≠ none) : 1 < u.depth := by
    have hpos := depth_pos u
    by_contra hdepth
    have hone : u.depth = 1 := by omega
    have hne : .buildGdbNewlib ≠ u := by
      rintro rfl
      cases hone
    exact hapart hgdb huruns hne (gdb_needs hu hone)
  by_cases htgdb : t = .buildGdbNewlib
  · exact Or.inr (Or.inl ⟨htgdb, hgdb hu huruns (htgdb ▸ htruns)⟩)
  · by_cases hugdb : u = .buildGdbNewlib
    · exact Or.inr (Or.inr ⟨hugdb, hgdb ht htruns (hugdb ▸ huruns)⟩)
    · refine Or.inl (Nat.le_antisymm ?_ ?_)
      · by_contra hlt
        have hlt : u.depth < t.depth := by omega
        have hne : t ≠ u := fun htu => by simp [htu] at hlt
        exact hapart htruns huruns hne (needs_of_depth_lt htgdb hugdb hu hlt)
      · by_contra hlt
        have hlt : t.depth < u.depth := by omega
        have hne : u ≠ t := fun htu => by simp [htu] at hlt
        exact hapart huruns htruns hne (needs_of_depth_lt hugdb htgdb ht hlt)

/-- The permission is checked while the host's gcc is made, of sources from elsewhere. -/
theorem newlib_sideBySide_preparation :
    ∃ c s, Reachable (makefile c) s ∧ s.running (.stamp .checkWritePermission) ≠ none ∧
      s.running (.stamp .installHostGcc) ≠ none ∧
      sideBySide .checkWritePermission .installHostGcc := by
  let c : Config := ⟨fun _ => false, true, true, false, false⟩
  have hstarts {s : State File} {t : Stamp} (h : Reachable (makefile c) s)
      (hps : ∀ p ∈ prereqs c t, p ∈ s.done) (hidle : s.running (.stamp t) = none)
      (hmissing : time (makefile c) s.log (.stamp t) = none) (hgoes : s.failed = false) :
      Reachable (makefile c)
        { s with log := .started (.stamp t) :: s.log,
                 running := Function.update s.running (.stamp t) (some (recipe c t)) } := by
    let r : Rule File := ⟨prereqs c t, recipe c t, recipe_ends c t⟩
    have hout : OutOfDate (makefile c) s.log (.stamp t) r.prereqs := by
      intro k hk
      rw [hmissing] at hk
      cases hk
    exact h.tail (.step (.start (r := r) rfl hps hidle hout hgoes))
  have hsource : Reachable (makefile c) { State.fresh [] with done := {.srcdir .gcc} } :=
    .single (.step (.source rfl (by simp [State.fresh])))
  have hcheck := hstarts (t := .checkWritePermission) hsource (by simp [prereqs]) rfl rfl rfl
  have hinstall := hstarts (t := .installHostGcc) hcheck (by simp [prereqs, sources, c]) rfl rfl rfl
  exact ⟨c, _, hinstall, by simp, by simp, newlib_sideBySide hinstall rfl rfl (by simp) (by simp)⟩

/-- A run ends, whatever earlier runs left; it waits for no recipe then, and unless a recipe has
    failed it has made the goal. -/
theorem newlib_ends (h : Reachable (makefile c) s) :
    Acc (fun s₂ s₁ => StepFor (makefile c) (NeededByNewlib c) s₁ s₂) (.fresh s.log) ∧
      ∀ s', Relation.ReflTransGen (StepFor (makefile c) (NeededByNewlib c)) (.fresh s.log) s' →
        (∀ s'', ¬ StepFor (makefile c) (NeededByNewlib c) s' s'') →
        (∀ f, s'.running f = none) ∧ (s'.failed = false → Returns c s') := by
  have hfresh := (inv_of_reachable h).fresh
  refine ⟨?_, fun s' hsteps hstuck => ?_⟩
  · apply Subrelation.accessible _ (acc_step hfresh)
    exact fun hstep => hstep.1
  · obtain ⟨hidle, hdone⟩ := over_of_stuck neededByNewlib_closed hfresh hsteps hstuck
    refine ⟨hidle, fun hgoes => ⟨fun g hg => ?_, hidle⟩⟩
    exact hdone hgoes g ⟨g, hg, .refl⟩

theorem newlib_ends_defaults :
    Acc (fun s₂ s₁ => StepFor (makefile .defaults) (NeededByNewlib .defaults) s₁ s₂) (.fresh []) ∧
      ∃ s, Relation.ReflTransGen (StepFor (makefile .defaults) (NeededByNewlib .defaults))
        (.fresh []) s ∧ Returns .defaults s := by
  have hstart : Reachable (makefile .defaults) (.fresh []) := .refl
  obtain ⟨hacc, hends⟩ := newlib_ends hstart
  obtain ⟨s, hsteps, hgoes, hstuck, -⟩ := exists_returns hstart
  exact ⟨hacc, s, hsteps, (hends s hsteps hstuck).2 hgoes⟩

end Builds
end Newlib
