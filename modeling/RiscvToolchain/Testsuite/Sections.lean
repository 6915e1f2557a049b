import RiscvToolchain.Python.Raises
import RiscvToolchain.Testsuite.Filter

/- What a run of `testsuite-filter` counts, in terms of the sections of its files.

   A section of a `.sum` file is a `Running target` line with the unexpected results
   up to the next one. `read_sum` assigns the sections of a file one after another to
   a dictionary of targets (`readSumFile_of_readable`), and the files one after
   another to a dictionary of test tools (`foldlM_readSumStep`); the filter returns 0
   exactly when what these dictionaries hold in the end is not empty and passes
   (`filterResult_eq_zero_iff`). -/
namespace Testsuite
open Python

structure Section where
  target : Str
  unexpected : List Str
  deriving DecidableEq

/-- The unexpected results up to the next target. -/
def leading (ls : List Str) : List Str := (ls.takeWhile (fun l => !isTarget l)).filter isUnexpected

/-- The sections of a file's lines. -/
def sections : List Str → List Section
  | [] => []
  | l :: ls => if isTarget l then ⟨targetOf l, leading ls⟩ :: sections ls else sections ls

/-- What `read_sum` keeps of a section. -/
def Section.entry (s : Section) : Str × List Str := (s.target, s.unexpected.map strip)

/-! One line. -/

theorem head?_of_startsWith {c : Char} {p l : Str} (h : startsWith (c :: p) l = true) :
    l.head? = some c := by
  obtain ⟨t, rfl⟩ := startsWith_iff.mp h
  rfl

theorem startsWith_of_head? {c d : Char} {p l : Str} (h : l.head? = some c) (hcd : d ≠ c) :
    startsWith (d :: p) l = false := by
  rw [Bool.eq_false_iff]
  intro hs
  rw [head?_of_startsWith hs] at h
  exact hcd (Option.some.inj h)

theorem head?_of_isTarget {l : Str} (h : isTarget l = true) : l.head? = some 'R' :=
  head?_of_startsWith h

theorem head?_of_isUnexpected {l : Str} (h : isUnexpected l = true) :
    ∃ c, l.head? = some c ∧ 'S' ≠ c ∧ ' ' ≠ c ∧ 'R' ≠ c := by
  simp only [isUnexpected, Bool.or_eq_true] at h
  rcases h with ((h | h) | h) | h
  · exact ⟨'F', head?_of_startsWith h, by decide⟩
  · exact ⟨'X', head?_of_startsWith h, by decide⟩
  · exact ⟨'U', head?_of_startsWith h, by decide⟩
  · exact ⟨'E', head?_of_startsWith h, by decide⟩

theorem sumLine_target (st : SumState) {l : Str} (h : isTarget l = true) :
    sumLine st l = .ok { st with
      scanVariations := false
      currentTarget := some (targetOf l)
      unexpectedResult := st.unexpectedResult.set (targetOf l) [] } := by
  have hhead := head?_of_isTarget h
  have h₁ : startsWith "Schedule of variations".toList l = false :=
    startsWith_of_head? hhead (by decide)
  have h₂ : startsWith "    ".toList l = false := startsWith_of_head? hhead (by decide)
  simp only [sumLine, h₁, h₂, h, Bool.and_false, Bool.false_eq_true, if_false, if_true]

theorem sumLine_unexpected (st : SumState) {l : Str} (h : isUnexpected l = true) :
    sumLine st l =
      match st.currentTarget.bind (fun t => (st.unexpectedResult.get t).map (t, ·)) with
      | none => .error .keyError
      | some (t, rs) => .ok { st with
          scanVariations := false
          unexpectedResult := st.unexpectedResult.set t (rs ++ [strip l]) } := by
  obtain ⟨c, hhead, hS, hsp, hR⟩ := head?_of_isUnexpected h
  have h₁ : startsWith "Schedule of variations".toList l = false := startsWith_of_head? hhead hS
  have h₂ : startsWith "    ".toList l = false := startsWith_of_head? hhead hsp
  have h₃ : isTarget l = false := startsWith_of_head? hhead hR
  cases hcur : st.currentTarget.bind (fun t => (st.unexpectedResult.get t).map (t, ·)) with
  | none =>
    simp only [sumLine, h₁, h₂, h₃, h, hcur, Bool.and_false, if_false, if_true, Bool.false_eq_true]
  | some p =>
    simp only [sumLine, h₁, h₂, h₃, h, hcur, Bool.and_false, if_false, if_true, Bool.false_eq_true]

/-- A line that is neither moves no target and no result. -/
theorem sumLine_other (st : SumState) {l : Str} (ht : isTarget l = false)
    (hu : isUnexpected l = false) : ∃ st', sumLine st l = .ok st' ∧
      st'.currentTarget = st.currentTarget ∧ st'.unexpectedResult = st.unexpectedResult := by
  rw [sumLine]
  split
  · exact ⟨_, rfl, rfl, rfl⟩
  · split
    · exact ⟨_, rfl, rfl, rfl⟩
    · simp only [ht, hu, Bool.false_eq_true, if_false]
      exact ⟨_, rfl, rfl, rfl⟩

/-! One file. -/

theorem isTarget_of_isUnexpected {l : Str} (h : isUnexpected l = true) : isTarget l = false := by
  obtain ⟨c, hhead, -, -, hR⟩ := head?_of_isUnexpected h
  exact startsWith_of_head? hhead hR

theorem leading_target {l : Str} (ls : List Str) (h : isTarget l = true) : leading (l :: ls) = [] := by
  simp [leading, h]

theorem leading_unexpected {l : Str} (ls : List Str) (h : isUnexpected l = true) :
    leading (l :: ls) = l :: leading ls := by
  simp [leading, isTarget_of_isUnexpected h, h]

theorem leading_other {l : Str} (ls : List Str) (ht : isTarget l = false)
    (hu : isUnexpected l = false) : leading (l :: ls) = leading ls := by
  simp [leading, ht, hu]

/-- The loop inside a section: the results are appended under its target, then the sections
    that follow are assigned one after another. -/
theorem foldlM_sumLine_some : ∀ (ls : List Str) (st : SumState) (t : Str) (acc : List Str)
    (d : Dict Str (List Str)), st.currentTarget = some t → st.unexpectedResult = d.set t acc →
    ∃ st', ls.foldlM sumLine st = .ok st' ∧ st'.unexpectedResult =
      (d.set t (acc ++ (leading ls).map strip)).assign ((sections ls).map Section.entry)
  | [], st, t, acc, d, _, hd => ⟨st, rfl, by simpa [leading, sections] using hd⟩
  | l :: ls, st, t, acc, d, hcur, hd => by
    rw [List.foldlM_cons]
    by_cases ht : isTarget l = true
    · -- the section ends, and the next one starts with no results
      rw [sumLine_target st ht]
      obtain ⟨st', hst, hres⟩ := foldlM_sumLine_some ls { st with
        scanVariations := false
        currentTarget := some (targetOf l)
        unexpectedResult := st.unexpectedResult.set (targetOf l) [] }
        (targetOf l) [] (d.set t acc) rfl (by rw [← hd])
      refine ⟨st', hst, ?_⟩
      rw [hres, leading_target ls ht, sections, if_pos ht]
      simp [Section.entry]
    · have ht : isTarget l = false := by simpa using ht
      by_cases hu : isUnexpected l = true
      · have hget : st.unexpectedResult.get t = some acc := by rw [hd, Dict.get_set, if_pos rfl]
        have hkey : st.currentTarget.bind (fun t => (st.unexpectedResult.get t).map (t, ·)) =
            some (t, acc) := by rw [hcur, Option.bind_some, hget]; rfl
        rw [sumLine_unexpected st hu, hkey]
        obtain ⟨st', hst, hres⟩ := foldlM_sumLine_some ls { st with
          scanVariations := false
          unexpectedResult := st.unexpectedResult.set t (acc ++ [strip l]) }
          t (acc ++ [strip l]) d hcur (by show Dict.set _ _ _ = _; rw [hd, Dict.set_set])
        refine ⟨st', hst, ?_⟩
        rw [hres, leading_unexpected ls hu, sections, if_neg (by simp [ht])]
        simp
      · have hu : isUnexpected l = false := by simpa using hu
        obtain ⟨st₁, h₁, hcur₁, hd₁⟩ := sumLine_other st ht hu
        rw [h₁]
        obtain ⟨st', hst, hres⟩ := foldlM_sumLine_some ls st₁ t acc d (hcur₁.trans hcur)
          (hd₁.trans hd)
        refine ⟨st', hst, ?_⟩
        rw [hres, leading_other ls ht hu, sections, if_neg (by simp [ht])]

/-- The loop before the first target: an unexpected result there ends the run. -/
theorem foldlM_sumLine_none : ∀ (ls : List Str) (st : SumState), st.currentTarget = none →
    (leading ls = [] → ∃ st', ls.foldlM sumLine st = .ok st' ∧ st'.unexpectedResult =
      st.unexpectedResult.assign ((sections ls).map Section.entry)) ∧
    (leading ls ≠ [] → ls.foldlM sumLine st = .error .keyError)
  | [], st, _ => ⟨fun _ => ⟨st, rfl, rfl⟩, fun h => absurd rfl h⟩
  | l :: ls, st, hcur => by
    rw [List.foldlM_cons]
    by_cases ht : isTarget l = true
    · rw [leading_target ls ht, sumLine_target st ht, sections, if_pos ht]
      refine ⟨fun _ => ?_, fun h => absurd rfl h⟩
      exact foldlM_sumLine_some ls { st with
        scanVariations := false
        currentTarget := some (targetOf l)
        unexpectedResult := st.unexpectedResult.set (targetOf l) [] }
        (targetOf l) [] st.unexpectedResult rfl rfl
    · have ht : isTarget l = false := by simpa using ht
      by_cases hu : isUnexpected l = true
      · rw [leading_unexpected ls hu, sumLine_unexpected st hu, hcur]
        exact ⟨fun h => absurd h (by simp), fun _ => rfl⟩
      · have hu : isUnexpected l = false := by simpa using hu
        obtain ⟨st₁, h₁, hcur₁, hd₁⟩ := sumLine_other st ht hu
        rw [h₁, leading_other ls ht hu, sections, if_neg (by simp [ht]), ← hd₁]
        exact foldlM_sumLine_none ls st₁ (hcur₁.trans hcur)

/-- The lines of a file of the list. -/
def sumLines (fs : FS) (f : Str) : List Str := (readlines fs f).getD []

/-- A file `read_sum` reads to its end. -/
def Readable (fs : FS) (f : Str) : Prop := (readlines fs f).isSome ∧ leading (sumLines fs f) = []

def sumDict (fs : FS) (f : Str) : Dict Str (List Str) :=
  Dict.empty.assign ((sections (sumLines fs f)).map Section.entry)

theorem readSumFile_of_readable {fs : FS} {f : Str} (h : Readable fs f) :
    readSumFile fs f = .ok (sumDict fs f) := by
  obtain ⟨hsome, hlead⟩ := h
  obtain ⟨ls, hls⟩ := Option.isSome_iff_exists.mp hsome
  rw [sumLines, hls] at hlead
  obtain ⟨st', hst, hres⟩ := (foldlM_sumLine_none ls ⟨none, [], false, Dict.empty⟩ rfl).1 hlead
  rw [readSumFile, sumDict, sumLines, hls]
  simp only [hst, bind, Except.bind, hres, pure, Except.pure, Option.getD_some]

theorem readable_of_readSumFile {fs : FS} {f : Str} {d : Dict Str (List Str)}
    (h : readSumFile fs f = .ok d) : Readable fs f := by
  rw [readSumFile] at h
  split at h
  · cases h
  · rename_i ls hls
    obtain ⟨st', hst, -⟩ := bind_ok h
    refine ⟨by rw [hls]; rfl, ?_⟩
    rw [sumLines, hls]
    by_contra hne
    rw [(foldlM_sumLine_none ls ⟨none, [], false, Dict.empty⟩ rfl).2 hne] at hst
    cases hst

/-! All files. -/

def readSumStep (fs : FS) (results : Results) (sumFile : Str) : Except PyErr Results := do
  return results.set (testTool sumFile) (← readSumFile fs sumFile)

theorem readSum_eq (fs : FS) (files : List Str) :
    readSum fs files = files.foldlM (readSumStep fs) Dict.empty := rfl

theorem foldlM_readSumStep {fs : FS} : ∀ (files : List Str) (results : Results),
    (∀ f ∈ files, Readable fs f) → files.foldlM (readSumStep fs) results =
      .ok (results.assign (files.map fun f => (testTool f, sumDict fs f)))
  | [], results, _ => rfl
  | f :: files, results, h => by
    have hstep : readSumStep fs results f = .ok (results.set (testTool f) (sumDict fs f)) := by
      rw [readSumStep, readSumFile_of_readable (h f (by simp))]
      rfl
    rw [List.foldlM_cons, hstep]
    exact foldlM_readSumStep files _ (fun g hg => h g (by simp [hg]))

theorem readable_of_foldlM {fs : FS} : ∀ (files : List Str) {results R : Results},
    files.foldlM (readSumStep fs) results = .ok R → ∀ f ∈ files, Readable fs f
  | [], _, _, _, f, hf => by cases hf
  | g :: files, results, R, h, f, hf => by
    obtain ⟨u, hu, h⟩ := foldlM_cons_ok h
    obtain ⟨d, hd, -⟩ := bind_ok hu
    rcases List.mem_cons.mp hf with rfl | hf
    · exact readable_of_readSumFile hd
    · exact readable_of_foldlM files h f hf

/-! The filter. -/

section Filter
variable (fs : FS) (tool libc dir : Str)

/-- The allowlist of a variation, as `filter_result` asks for it. -/
def whiteListOf (variation : Str) : Except PyErr WhiteList :=
  getWhiteList fs (decodeVariation variation).arch (decodeVariation variation).abi libc
    (pathJoin dir tool) (decide (tool = "gcc".toList))

/-- A line of a section is matched by the allowlist of the section's variation. -/
def Matched (variation l : Str) : Prop :=
  ∃ whiteList, whiteListOf fs tool libc dir variation = .ok whiteList ∧
    ignored whiteList (strip l) = .ok true

/-- What is kept under one tool and one target passes the filter. -/
def Passes (variation : Str) (urs : List Str) : Prop :=
  ∃ whiteList, whiteListOf fs tool libc dir variation = .ok whiteList ∧
    ∀ ur ∈ urs, ignored whiteList ur = .ok true

theorem foldlM_ignored {whiteList : WhiteList} : ∀ (urs acc : List Str) {out : List Str},
    urs.foldlM (fun acc ur => do
      if ← ignored whiteList ur then return acc else return acc ++ [ur]) acc = .ok out →
    (out = [] ↔ acc = [] ∧ ∀ ur ∈ urs, ignored whiteList ur = .ok true)
  | [], acc, out, h => by
    cases h
    simp
  | ur :: urs, acc, out, h => by
    obtain ⟨acc', hstep, h⟩ := foldlM_cons_ok h
    obtain ⟨b, hb, hstep⟩ := bind_ok hstep
    rw [foldlM_ignored urs acc' h]
    cases b with
    | true =>
      cases hstep
      simp [hb]
    | false =>
      cases hstep
      simp [hb]

theorem foldlM_ignored_true {whiteList : WhiteList} : ∀ (urs acc : List Str),
    (∀ ur ∈ urs, ignored whiteList ur = .ok true) →
    urs.foldlM (fun acc ur => do
      if ← ignored whiteList ur then return acc else return acc ++ [ur]) acc = .ok acc
  | [], acc, _ => rfl
  | ur :: urs, acc, h => by
    rw [List.foldlM_cons, h ur (by simp)]
    exact foldlM_ignored_true urs acc (fun x hx => h x (by simp [hx]))

theorem filterVariation_ok {st st' : FilterState} {testtool variation : Str} {urs : List Str}
    (h : filterVariation fs tool libc dir st testtool variation urs = .ok st') :
    st'.summary.entries ≠ [] ∧
      (st'.anyFail = false ↔ st.anyFail = false ∧ Passes fs tool libc dir variation urs) := by
  obtain ⟨whiteList, hwl, h⟩ := bind_ok h
  obtain ⟨unexpected, hun, h⟩ := bind_ok h
  have hnil := foldlM_ignored urs [] hun
  have hpass : Passes fs tool libc dir variation urs ↔
      ∀ ur ∈ urs, ignored whiteList ur = .ok true := by
    refine ⟨?_, fun hall => ⟨whiteList, hwl, hall⟩⟩
    intro ⟨wl, hwl', hall⟩
    rw [whiteListOf, hwl] at hwl'
    cases hwl'
    exact hall
  cases h
  refine ⟨Dict.entries_set_ne_nil _ _ _, ?_⟩
  rw [hpass, Bool.or_eq_false_iff, Bool.not_eq_false', List.isEmpty_iff, hnil]
  simp

theorem filterVariation_of_passes {st : FilterState} {testtool variation : Str} {urs : List Str}
    (h : Passes fs tool libc dir variation urs) :
    ∃ st', filterVariation fs tool libc dir st testtool variation urs = .ok st' := by
  obtain ⟨whiteList, hwl, hall⟩ := h
  have hun : unexpectedList whiteList urs = .ok [] := foldlM_ignored_true urs [] hall
  rw [whiteListOf] at hwl
  simp only [filterVariation, hwl, bind, Except.bind, hun]
  exact ⟨_, rfl⟩

/-- What `filter_result` goes over: test tool, variation, results. -/
def visited (results : Results) : List (Str × Str × List Str) :=
  results.entries.flatMap fun r => r.2.entries.map fun v => (r.1, v.1, v.2)

def filterStep (st : FilterState) (x : Str × Str × List Str) : Except PyErr FilterState :=
  filterVariation fs tool libc dir st x.1 x.2.1 x.2.2

theorem foldlM_filterStep_ok : ∀ (xs : List (Str × Str × List Str)) {st st' : FilterState},
    xs.foldlM (filterStep fs tool libc dir) st = .ok st' →
    (st'.anyFail = false ↔
      st.anyFail = false ∧ ∀ x ∈ xs, Passes fs tool libc dir x.2.1 x.2.2) ∧
    (st'.summary.entries = [] ↔ st.summary.entries = [] ∧ xs = [])
  | [], st, st', h => by
    cases h
    simp
  | x :: xs, st, st', h => by
    obtain ⟨u, hu, h⟩ := foldlM_cons_ok h
    obtain ⟨hne, hfail⟩ := filterVariation_ok fs tool libc dir hu
    obtain ⟨ih₁, ih₂⟩ := foldlM_filterStep_ok xs h
    refine ⟨?_, ?_⟩
    · rw [ih₁, hfail]
      simp [and_assoc]
    · rw [ih₂]
      simp [hne]

theorem foldlM_filterStep_of_passes : ∀ (xs : List (Str × Str × List Str)) (st : FilterState),
    (∀ x ∈ xs, Passes fs tool libc dir x.2.1 x.2.2) →
    ∃ st', xs.foldlM (filterStep fs tool libc dir) st = .ok st'
  | [], st, _ => ⟨st, rfl⟩
  | x :: xs, st, h => by
    obtain ⟨u, hu⟩ := @filterVariation_of_passes fs tool libc dir st x.1 _ _ (h x (by simp))
    obtain ⟨st', h'⟩ := foldlM_filterStep_of_passes xs u (fun y hy => h y (by simp [hy]))
    refine ⟨st', ?_⟩
    rw [List.foldlM_cons, filterStep, hu]
    exact h'

theorem filterResult_eq (results : Results) :
    filterResult fs tool libc dir results = do
      let st ← (visited results).foldlM (filterStep fs tool libc dir) ⟨Dict.empty, false, []⟩
      return if st.anyFail || st.summary.entries.isEmpty then 1 else 0 := by
  simp only [filterResult, visited, foldlM_flatMap, List.foldlM_map, filterStep]

/-- The filter returns 0 exactly when it visits something and everything it visits passes. -/
theorem filterResult_eq_zero_iff (results : Results) :
    filterResult fs tool libc dir results = .ok 0 ↔
      visited results ≠ [] ∧ ∀ x ∈ visited results, Passes fs tool libc dir x.2.1 x.2.2 := by
  rw [filterResult_eq]
  refine ⟨?_, ?_⟩
  · intro h
    obtain ⟨st, hst, h⟩ := bind_ok h
    obtain ⟨hfail, hempty⟩ := foldlM_filterStep_ok fs tool libc dir _ hst
    -- 0 is returned with no failure and something in the summary
    have hzero : st.anyFail = false ∧ st.summary.entries ≠ [] := by
      by_contra hcon
      have hone : (st.anyFail || st.summary.entries.isEmpty) = true := by
        cases hf : st.anyFail with
        | true => rfl
        | false =>
          have : st.summary.entries = [] := by
            by_contra hne
            exact hcon ⟨hf, hne⟩
          simp [this]
      rw [hone] at h
      cases h
    refine ⟨?_, (hfail.mp hzero.1).2⟩
    intro hv
    exact hzero.2 (hempty.mpr ⟨rfl, hv⟩)
  · intro ⟨hne, hall⟩
    obtain ⟨st, hst⟩ := foldlM_filterStep_of_passes fs tool libc dir (visited results)
      ⟨Dict.empty, false, []⟩ hall
    obtain ⟨hfail, hempty⟩ := foldlM_filterStep_ok fs tool libc dir _ hst
    have h₁ : st.anyFail = false := hfail.mpr ⟨rfl, hall⟩
    have h₂ : st.summary.entries ≠ [] := fun h => hne (hempty.mp h).2
    rw [hst]
    simp [bind, Except.bind, h₁, h₂, pure, Except.pure]

end Filter

end Testsuite
