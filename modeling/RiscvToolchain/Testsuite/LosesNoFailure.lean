import RiscvToolchain.Testsuite.Sections

/- Which failures `testsuite-filter` can lose.

   Both dictionaries of `read_sum` are assigned to without a look at what they hold:
   of the sections of a file with one target the last is kept, and of the files with
   one test tool the last. The other sections are `Shadowed`. The run exits with 0
   exactly when what is not shadowed passes (`main_eq_zero_iff`), so no failure is
   lost exactly when, in that case, the shadowed sections are matched as well
   (`losesNoFailure_iff`). -/
namespace Testsuite
open Python

section Run
variable (fs : FS) (tool libc dir : Str) (files : List Str)

/-- `s` is a section of the file `f` of the list; `later` are the files after `f`, `below` the
    sections after `s` in it. -/
def SectionAt (f : Str) (later : List Str) (s : Section) (below : List Section) : Prop :=
  (∃ earlier, files = earlier ++ f :: later) ∧
    ∃ above, sections (sumLines fs f) = above ++ s :: below

/-- A later file has the test tool of `f`, or a later section of `f` the target of `s`. -/
def Shadowed (f : Str) (later : List Str) (s : Section) (below : List Section) : Prop :=
  testTool f ∈ later.map testTool ∨ s.target ∈ below.map Section.target

/-- Every unexpected result of the section is matched. -/
def AllMatched (s : Section) : Prop := ∀ l ∈ s.unexpected, Matched fs tool libc dir s.target l

/-- No failure is lost: a section was read, and what any section holds is matched. -/
def NoneLost : Prop :=
  (∃ f later s below, SectionAt fs files f later s below) ∧
    ∀ f later s below, SectionAt fs files f later s below → AllMatched fs tool libc dir s

/-- What is not shadowed passes: every file is read to its end, there is a section that is not
    shadowed, and each has an allowlist that matches it. -/
structure CountedPass : Prop where
  readable : ∀ f ∈ files, Readable fs f
  counted : ∃ f later s below, SectionAt fs files f later s below ∧ ¬ Shadowed f later s below
  passes : ∀ f later s below, SectionAt fs files f later s below → ¬ Shadowed f later s below →
    Passes fs tool libc dir s.target (s.unexpected.map strip)

/-! The dictionaries hold the sections that are not shadowed. -/

theorem mem_sumDict_iff {f target : Str} {urs : List Str} :
    (target, urs) ∈ (sumDict fs f).entries ↔
      ∃ s above below, sections (sumLines fs f) = above ++ s :: below ∧
        s.target ∉ below.map Section.target ∧ s.target = target ∧ s.unexpected.map strip = urs := by
  rw [sumDict, Dict.mem_entries_assign_empty]
  refine ⟨?_, ?_⟩
  · intro h
    obtain ⟨before, after, hes, hnot⟩ := h
    obtain ⟨above, rest, hsec, -, hrest⟩ := List.map_eq_append_iff.mp hes
    obtain ⟨s, below, rfl, hs, hbelow⟩ := List.map_eq_cons_iff.mp hrest
    cases hs
    refine ⟨s, above, below, hsec, ?_, rfl, rfl⟩
    rw [← hbelow, List.map_map] at hnot
    exact hnot
  · intro h
    obtain ⟨s, above, below, hsec, hnot, htarget, hurs⟩ := h
    refine ⟨above.map Section.entry, below.map Section.entry, ?_, ?_⟩
    · rw [hsec, List.map_append, List.map_cons, ← htarget, ← hurs]
      rfl
    · rw [List.map_map, ← htarget]
      exact hnot

theorem mem_visited_iff {target : Str} {urs : List Str} :
    (∃ testtool, (testtool, target, urs) ∈
      visited (Dict.empty.assign (files.map fun f => (testTool f, sumDict fs f)))) ↔
    ∃ f later s below, SectionAt fs files f later s below ∧ ¬ Shadowed f later s below ∧
      s.target = target ∧ s.unexpected.map strip = urs := by
  -- a tool has the sums of its last file
  have hfile : ∀ testtool d, (testtool, d) ∈
      (Dict.empty.assign (files.map fun f => (testTool f, sumDict fs f))).entries ↔
      ∃ f earlier later, files = earlier ++ f :: later ∧ testTool f ∉ later.map testTool ∧
        testTool f = testtool ∧ sumDict fs f = d := by
    intro testtool d
    rw [Dict.mem_entries_assign_empty]
    refine ⟨?_, ?_⟩
    · intro ⟨before, after, hes, hnot⟩
      obtain ⟨earlier, rest, hfiles, -, hrest⟩ := List.map_eq_append_iff.mp hes
      obtain ⟨f, later, rfl, hf, hlater⟩ := List.map_eq_cons_iff.mp hrest
      cases hf
      refine ⟨f, earlier, later, hfiles, ?_, rfl, rfl⟩
      rw [← hlater, List.map_map] at hnot
      exact hnot
    · intro ⟨f, earlier, later, hfiles, hnot, htool, hd⟩
      refine ⟨_, _, by rw [hfiles, List.map_append, List.map_cons, htool, hd], ?_⟩
      rw [List.map_map, ← htool]
      exact hnot
  refine ⟨?_, ?_⟩
  · intro ⟨testtool, hmem⟩
    obtain ⟨⟨tt, d⟩, hd, hv⟩ := List.mem_flatMap.mp hmem
    obtain ⟨⟨tg, us⟩, hu, he⟩ := List.mem_map.mp hv
    cases he
    obtain ⟨f, earlier, later, hfiles, hlast, -, rfl⟩ := (hfile _ _).mp hd
    obtain ⟨s, above, below, hsec, hslast, htarget, hurs⟩ := (mem_sumDict_iff fs).mp hu
    exact ⟨f, later, s, below, ⟨⟨earlier, hfiles⟩, above, hsec⟩, not_or.mpr ⟨hlast, hslast⟩,
      htarget, hurs⟩
  · intro ⟨f, later, s, below, ⟨⟨earlier, hfiles⟩, above, hsec⟩, hshadow, htarget, hurs⟩
    obtain ⟨hlast, hslast⟩ := not_or.mp hshadow
    refine ⟨testTool f, List.mem_flatMap.mpr ⟨(testTool f, sumDict fs f), ?_, ?_⟩⟩
    · exact (hfile _ _).mpr ⟨f, earlier, later, hfiles, hlast, rfl, rfl⟩
    · refine List.mem_map.mpr ⟨(target, urs), ?_, rfl⟩
      exact (mem_sumDict_iff fs).mpr ⟨s, above, below, hsec, hslast, htarget, hurs⟩

/-- On files that are read to their end the filter returns 0 exactly when what is not shadowed
    passes. -/
theorem filterResult_assign_iff (hread : ∀ f ∈ files, Readable fs f) :
    filterResult fs tool libc dir
      (Dict.empty.assign (files.map fun f => (testTool f, sumDict fs f))) = .ok 0 ↔
      CountedPass fs tool libc dir files := by
  have hvisit := fun target urs => @mem_visited_iff fs files target urs
  rw [filterResult_eq_zero_iff]
  revert hvisit
  generalize visited (Dict.empty.assign (files.map fun f => (testTool f, sumDict fs f))) = xs
  intro hvisit
  refine ⟨?_, ?_⟩
  · intro ⟨hne, hall⟩
    refine ⟨hread, ?_, ?_⟩
    · obtain ⟨⟨tt, target, urs⟩, hx⟩ := List.exists_mem_of_ne_nil _ hne
      obtain ⟨f, later, s, below, hat, hshadow, -, -⟩ := (hvisit target urs).mp ⟨tt, hx⟩
      exact ⟨f, later, s, below, hat, hshadow⟩
    · intro f later s below hat hshadow
      obtain ⟨tt, hx⟩ := (hvisit s.target (s.unexpected.map strip)).mpr
        ⟨f, later, s, below, hat, hshadow, rfl, rfl⟩
      exact hall (tt, s.target, s.unexpected.map strip) hx
  · intro ⟨_, ⟨f, later, s, below, hat, hshadow⟩, hpass⟩
    refine ⟨?_, ?_⟩
    · obtain ⟨tt, hx⟩ := (hvisit s.target (s.unexpected.map strip)).mpr
        ⟨f, later, s, below, hat, hshadow, rfl, rfl⟩
      exact List.ne_nil_of_mem hx
    · intro ⟨tt, target, urs⟩ hx
      obtain ⟨f, later, s, below, hat, hshadow, rfl, rfl⟩ := (hvisit target urs).mp ⟨tt, hx⟩
      exact hpass f later s below hat hshadow

/-- Reading and filtering return 0 exactly when what is not shadowed passes. -/
theorem readSum_filterResult_iff :
    (readSum fs files >>= filterResult fs tool libc dir) = .ok 0 ↔
      CountedPass fs tool libc dir files := by
  rw [readSum_eq]
  refine ⟨?_, ?_⟩
  · intro h
    obtain ⟨R, hR, h⟩ := bind_ok h
    have hread := readable_of_foldlM files hR
    rw [foldlM_readSumStep files _ hread] at hR
    rw [← Except.ok.inj hR] at h
    exact (filterResult_assign_iff fs tool libc dir files hread).mp h
  · intro h
    rw [foldlM_readSumStep files _ h.readable]
    exact (filterResult_assign_iff fs tool libc dir files h.readable).mpr h

end Run

section Exit
variable (fs : FS) (libc dir sumFiles : Str) (rest : List Str)

theorem main_eq_zero_iff {tool : Str} (htool : tool ∈ ["gcc".toList, "binutils".toList]) :
    main fs (tool :: libc :: dir :: sumFiles :: rest) = .ok 0 ↔
      CountedPass fs tool libc dir (split ',' sumFiles) := by
  rw [← readSum_filterResult_iff]
  simp only [main, htool, if_true]

theorem allMatched_of_passes {tool : Str} {s : Section}
    (h : Passes fs tool libc dir s.target (s.unexpected.map strip)) :
    AllMatched fs tool libc dir s := by
  intro l hl
  obtain ⟨whiteList, hwl, hall⟩ := h
  exact ⟨whiteList, hwl, hall (strip l) (List.mem_map.mpr ⟨l, hl, rfl⟩)⟩

/-- An exit status of 0 says that no failure was lost exactly when the shadowed sections are
    matched, or what is not shadowed does not pass. -/
theorem losesNoFailure_iff (tool : Str) (htool : tool ∈ ["gcc".toList, "binutils".toList]) :
    (main fs (tool :: libc :: dir :: sumFiles :: rest) = .ok 0 →
      NoneLost fs tool libc dir (split ',' sumFiles)) ↔
    ((∀ f later s below, SectionAt fs (split ',' sumFiles) f later s below →
        Shadowed f later s below → AllMatched fs tool libc dir s) ∨
      ¬ CountedPass fs tool libc dir (split ',' sumFiles)) := by
  rw [main_eq_zero_iff fs libc dir sumFiles rest htool]
  refine ⟨?_, ?_⟩
  · intro h
    by_cases hpass : CountedPass fs tool libc dir (split ',' sumFiles)
    · exact Or.inl (fun f later s below hat _ => (h hpass).2 f later s below hat)
    · exact Or.inr hpass
  · intro h hpass
    obtain ⟨f, later, s, below, hat, -⟩ := hpass.counted
    refine ⟨⟨f, later, s, below, hat⟩, ?_⟩
    intro f later s below hat
    by_cases hshadow : Shadowed f later s below
    · exact h.resolve_right (not_not_intro hpass) f later s below hat hshadow
    · exact allMatched_of_passes fs libc dir (hpass.passes f later s below hat hshadow)

end Exit

/-! One run that loses nothing, and one that loses a failure. -/

def boardLine : String := "Running target riscv-sim/-march=rv64gc/-mabi=lp64d/-mcmodel=medlow\n"

/-- One result file whose one failure is in the allowlist. -/
def knownFailure : FS := FS.ofList
  [("gcc.sum".toList, (boardLine ++ "FAIL: gcc.dg/a.c (test)\n").toList),
    ("allow/gcc/common.log".toList, "FAIL: gcc.dg/a.c\n".toList)]

theorem losesNoFailure_knownFailure :
    main knownFailure ["gcc".toList, "newlib".toList, "allow".toList, "gcc.sum".toList] = .ok 0 ∧
      NoneLost knownFailure "gcc".toList "newlib".toList "allow".toList ["gcc.sum".toList] := by
  have hrun : main knownFailure
      ["gcc".toList, "newlib".toList, "allow".toList, "gcc.sum".toList] = .ok 0 := by
    decide +kernel
  refine ⟨hrun, (losesNoFailure_iff knownFailure "newlib".toList "allow".toList "gcc.sum".toList []
    "gcc".toList (by decide)).mpr (Or.inl ?_) hrun⟩
  intro f later s below ⟨⟨earlier, hfiles⟩, above, hsec⟩ hshadow
  -- one file with one section: nothing stands after either
  have hone : ∀ {α : Type} {x y : α} {as bs : List α}, [x] = as ++ y :: bs → bs = [] ∧ y = x := by
    intro α x y as bs h
    cases as with
    | nil => cases h; exact ⟨rfl, rfl⟩
    | cons a as => simp at h
  obtain ⟨rfl, rfl⟩ := hone hfiles
  have hsections : ∃ s₀, sections (sumLines knownFailure "gcc.sum".toList) = [s₀] := ⟨_, rfl⟩
  obtain ⟨s₀, hs₀⟩ := hsections
  obtain ⟨rfl, -⟩ := hone (hs₀.symm.trans hsec)
  rcases hshadow with h | h <;> cases h

/-- Two result files of one base name: the failure is in the first. -/
def lostFailure : FS := FS.ofList
  [("a/gcc.sum".toList, (boardLine ++ "FAIL: gcc.dg/a.c (test)\n").toList),
    ("b/gcc.sum".toList, boardLine.toList)]

theorem not_losesNoFailure : ¬ ∀ (fs : FS) (tool libc dir sumFiles : Str) (rest : List Str),
    tool ∈ ["gcc".toList, "binutils".toList] →
    main fs (tool :: libc :: dir :: sumFiles :: rest) = .ok 0 →
    NoneLost fs tool libc dir (split ',' sumFiles) := by
  intro h
  have hrun : main lostFailure
      ["gcc".toList, "newlib".toList, "allow".toList, "a/gcc.sum,b/gcc.sum".toList] = .ok 0 := by
    decide +kernel
  have hlost := (h _ _ _ _ _ _ (by decide) hrun).2 "a/gcc.sum".toList ["b/gcc.sum".toList]
    ⟨"riscv-sim/-march=rv64gc/-mabi=lp64d/-mcmodel=medlow".toList,
      ["FAIL: gcc.dg/a.c (test)\n".toList]⟩ [] ⟨⟨[], by decide⟩, [], by decide +kernel⟩
  obtain ⟨whiteList, hwl, hig⟩ := hlost "FAIL: gcc.dg/a.c (test)\n".toList List.mem_cons_self
  have hnone : whiteListOf lostFailure "gcc".toList "newlib".toList "allow".toList
      "riscv-sim/-march=rv64gc/-mabi=lp64d/-mcmodel=medlow".toList = .ok (.gcc Dict.empty) := rfl
  rw [hnone] at hwl
  cases hwl
  exact absurd hig (by decide)

end Testsuite
