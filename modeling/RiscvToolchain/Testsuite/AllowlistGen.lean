import RiscvToolchain.Python.Regex
import RiscvToolchain.Testsuite.Excuses

/- `test/allowlist/gcc/gen.py`: the allowlists of gcc from four build logs, and that
   they say to `testsuite-filter` what the logs say.

   Correspondence (Python ↔ Lean):
     `processlog`  ↔ `processlog`, one line `processline`
     `writeset`    ↔ `writeset`
     the module's statements from the four logs to the nine files ↔ `gen`
   A set is written in the order in which it is iterated over, which nothing fixes:
   it is a parameter. The files of the directory `res` recombine to the set of each
   log (`union_selected`), and what the logs show with one status marker is ignored
   when it comes back as a result (`gen_complete`). -/
namespace Testsuite
open Python

/-! The program. -/

/-- `^.*((FAIL|UNRESOLVED): .*.c) .*$`; `re.match` starts at the start of the line. -/
def logPattern : Re :=
  .seq (.star Re.dot)
    (.seq (.group 1
      (.seq (.group 2 (.alt (Re.lit "FAIL".toList) (Re.lit "UNRESOLVED".toList)))
        (.seq (Re.lit ": ".toList)
          (.seq (.star Re.dot) (.seq (.cls Re.dot) (Re.lit "c".toList))))))
      (.seq (Re.lit " ".toList) (.seq (.star Re.dot) .eol)))

/-- `result.group(1)` of a line that matches. -/
def processline (line : Str) : Option Str :=
  (Re.pyMatch logPattern line).bind (·.get 1)

/-- The set of a log; `none` is the exception of a log that cannot be read. -/
def processlog (fs : FS) (filename : Str) : Option (Finset Str) :=
  (readlines fs filename).map fun data => (data.filterMap processline).toFinset

/-- An iteration order for sets of strings. -/
structure SetOrder where
  toList : Finset Str → List Str
  mem_toList : ∀ s t, t ∈ toList s ↔ t ∈ s

/-- `open(filename, "a").write(text)`; `none` is the exception. -/
def appendText (fs : FS) (filename text : Str) : Option FS :=
  match fs filename with
  | some .unreadable => none
  | some (.text old) => some (fun p => if p = filename then some (.text (old ++ text)) else fs p)
  | none => some (fun p => if p = filename then some (.text text) else fs p)

def writeset (order : SetOrder) (fs : FS) (filename : Str) (set1 : Finset Str) : Option FS :=
  if set1.card ≠ 0 then appendText fs filename ((order.toList set1).flatMap (· ++ ['\n']))
  else some fs

/-- The sets of the four logs. -/
structure LogSets where
  newlib64 : Finset Str
  newlib32 : Finset Str
  linux64 : Finset Str
  linux32 : Finset Str

def newlib64Log : Str := "10_build (ubuntu-24.04, newlib, rv64gc-lp64d, gcc).txt".toList
def newlib32Log : Str := "25_build (ubuntu-24.04, newlib, rv32gc-ilp32d, gcc).txt".toList
def linux64Log : Str := "24_build (ubuntu-24.04, linux, rv64gc-lp64d, gcc).txt".toList
def linux32Log : Str := "15_build (ubuntu-24.04, linux, rv32gc-ilp32d, gcc).txt".toList

def readLogs (fs : FS) : Option LogSets := do
  let newlib64 ← processlog fs newlib64Log
  let newlib32 ← processlog fs newlib32Log
  let linux64 ← processlog fs linux64Log
  let linux32 ← processlog fs linux32Log
  return ⟨newlib64, newlib32, linux64, linux32⟩

namespace LogSets
variable (l : LogSets)

def commonerror : Finset Str := l.newlib64 ∩ l.newlib32 ∩ l.linux64 ∩ l.linux32
def rv32 : Finset Str := (l.newlib32 ∩ l.linux32) \ l.commonerror
def rv64 : Finset Str := (l.newlib64 ∩ l.linux64) \ l.commonerror
def glibc : Finset Str := (l.linux32 ∩ l.linux64) \ l.commonerror
def newlib : Finset Str := (l.newlib64 ∩ l.newlib32) \ l.commonerror

/-- The names written to, each with its set, in order. -/
def files : List (Str × Finset Str) :=
  [("res/common.log".toList, l.commonerror), ("res/rv32.log".toList, l.rv32),
    ("res/rv64.log".toList, l.rv64), ("res/glibc.log".toList, l.glibc),
    ("res/newlib.log".toList, l.newlib),
    ("res/glibc.rv32.log".toList, ((l.linux32 \ l.rv32) \ l.glibc) \ l.commonerror),
    ("res/glibc.rv64.log".toList, ((l.linux64 \ l.rv64) \ l.glibc) \ l.commonerror),
    ("res/newlib.rv32.log".toList, ((l.newlib32 \ l.rv32) \ l.newlib) \ l.commonerror),
    ("res/newlib.rv64.log".toList, ((l.newlib64 \ l.rv64) \ l.newlib) \ l.commonerror)]

end LogSets

def gen (order : SetOrder) (fs : FS) : Option FS := do
  let l ← readLogs fs
  l.files.foldlM (fun fs f => writeset order fs f.1 f.2) fs

/-! What a line gives. -/

/-- What `processline` extracts: a marker, text of the line, a `c` before a space. -/
structure Extracted (line t : Str) : Prop where
  marker : ∃ m ∈ ["FAIL: ".toList, "UNRESOLVED: ".toList], m <+: t
  ends : ∃ b, t = b ++ ['c']
  occurs : ∃ a w, line = a ++ (t ++ ' ' :: w)
  noNewline : '\n' ∉ t

/-- The parts of a line that matches, from left to right. -/
theorem processline_parts {line t : Str} (h : processline line = some t) :
    ∃ a status b x w, status ∈ ["FAIL".toList, "UNRESOLVED".toList] ∧
      (∀ c ∈ b, Re.dot c = true) ∧ Re.dot x = true ∧
      t = status ++ (": ".toList ++ (b ++ [x, 'c'])) ∧ line = a ++ (t ++ ' ' :: w) := by
  rw [processline, Re.pyMatch] at h
  cases hrun : (Re.run logPattern ⟨[], line, Dict.empty⟩).head? with
  | none => rw [hrun] at h; cases h
  | some pt =>
    rw [hrun] at h
    have hget : pt.groups.get 1 = some t := h
    have hmem := List.mem_of_mem_head? hrun
    -- one point after each part of the expression
    obtain ⟨p₁, h₁, hmem⟩ := Re.mem_run_seq hmem
    obtain ⟨a, -, hpa, -⟩ := Re.mem_run_star h₁
    obtain ⟨p₂, h₂, hmem⟩ := Re.mem_run_seq hmem
    obtain ⟨q, hq, hgroup⟩ := Re.mem_run_group h₂
    obtain ⟨q₁, hq₁, hq⟩ := Re.mem_run_seq hq
    obtain ⟨r, hr, hgroup₂⟩ := Re.mem_run_group hq₁
    obtain ⟨q₂, hq₂, hq⟩ := Re.mem_run_seq hq
    obtain ⟨hcolon, -⟩ := Re.mem_run_lit hq₂
    obtain ⟨q₃, hq₃, hq⟩ := Re.mem_run_seq hq
    obtain ⟨b, hb, hpb, -⟩ := Re.mem_run_star hq₃
    obtain ⟨q₄, hq₄, hq⟩ := Re.mem_run_seq hq
    obtain ⟨x, hx, hpx, -⟩ := Re.mem_run_cls hq₄
    obtain ⟨hpc, -⟩ := Re.mem_run_lit hq
    obtain ⟨p₃, h₃, hmem⟩ := Re.mem_run_seq hmem
    obtain ⟨hspace, hg₃⟩ := Re.mem_run_lit h₃
    obtain ⟨p₄, h₄, hmem⟩ := Re.mem_run_seq hmem
    obtain ⟨w, -, hpw, hg₄⟩ := Re.mem_run_star h₄
    obtain ⟨rfl, -⟩ := Re.mem_run_eol hmem
    obtain ⟨status, hstatus, hpr⟩ : ∃ status ∈ ["FAIL".toList, "UNRESOLVED".toList],
        Re.Passed p₁ r status := by
      rcases List.mem_append.mp hr with hr | hr
      · exact ⟨_, by simp, (Re.mem_run_lit hr).1⟩
      · exact ⟨_, by simp, (Re.mem_run_lit hr).1⟩
    have hpt := (((hgroup₂ status hpr).1.trans hcolon).trans hpb).trans (hpx.trans hpc)
    obtain ⟨hpass, hg⟩ := hgroup _ hpt
    have ht : t = status ++ (": ".toList ++ (b ++ [x, 'c'])) := by
      rw [hg₄, hg₃, hg, Dict.get_set, if_pos rfl] at hget
      rw [← Option.some.inj hget]
      simp
    refine ⟨a, status, b, x, w ++ pt.rest, hstatus, hb, hx, ht, ?_⟩
    have hline : line = a ++ p₁.rest := hpa.1
    rw [hline, hpass.1, hspace.1, hpw.1, ht]
    simp

theorem processline_extracted {line t : Str} (h : processline line = some t) :
    Extracted line t := by
  obtain ⟨a, status, b, x, w, hstatus, hb, hx, ht, hline⟩ := processline_parts h
  have hbn : '\n' ∉ b := fun h => absurd (hb _ h) (by decide)
  have hxn : '\n' ≠ x := by
    intro h
    rw [← h] at hx
    exact absurd hx (by decide)
  have hends : t = (status ++ (": ".toList ++ (b ++ [x]))) ++ ['c'] := by rw [ht]; simp
  simp only [List.mem_cons, List.not_mem_nil, or_false] at hstatus
  refine ⟨?_, ⟨_, hends⟩, ⟨a, w, hline⟩, ?_⟩
  · rcases hstatus with rfl | rfl
    · exact ⟨"FAIL: ".toList, by simp, b ++ [x, 'c'], ht.symm⟩
    · exact ⟨"UNRESOLVED: ".toList, by simp, b ++ [x, 'c'], ht.symm⟩
  · rw [ht]
    rcases hstatus with rfl | rfl <;> simp [hbn, hxn]

/-- The lines of a file are free of carriage returns. -/
theorem not_mem_readlines {fs : FS} {path : Str} {data : List Str} {line : Str}
    (h : readlines fs path = some data) (hl : line ∈ data) : '\r' ∉ line := by
  rw [readlines] at h
  split at h
  · rename_i s _
    cases h
    obtain ⟨b, -, hb, hsub⟩ := mem_splitLines hl
    have hbr : '\r' ∉ b := fun hr => not_mem_universalNewlines s (hsub _ hr)
    rcases hb with rfl | rfl
    · exact hbr
    · simp [hbr]
  · cases h

/-- A line that is written and read back as it is, under its second field. -/
structure Entry (t : Str) : Prop where
  noNewline : '\n' ∉ t
  noReturn : '\r' ∉ t
  marker : ∃ m ∈ ["FAIL: ".toList, "UNRESOLVED: ".toList], m <+: t
  ends : ∃ b, t = b ++ ['c']

theorem entry_of_mem_processlog {fs : FS} {path : Str} {set1 : Finset Str}
    (h : processlog fs path = some set1) : ∀ t ∈ set1, Entry t := by
  intro t ht
  obtain ⟨data, hdata, rfl⟩ := Option.map_eq_some_iff.mp h
  obtain ⟨line, hline, hpl⟩ := List.mem_filterMap.mp (List.mem_toFinset.mp ht)
  have hex := processline_extracted hpl
  have hr := not_mem_readlines hdata hline
  obtain ⟨a, w, hocc⟩ := hex.occurs
  refine ⟨hex.noNewline, ?_, hex.marker, hex.ends⟩
  intro h
  exact hr (by rw [hocc]; simp [h])

theorem Entry.head {t : Str} (h : Entry t) :
    ∃ c s, t = c :: s ∧ isspace c = false ∧ c ≠ '#' := by
  obtain ⟨m, hm, s, rfl⟩ := h.marker
  simp only [List.mem_cons, List.not_mem_nil, or_false] at hm
  rcases hm with rfl | rfl
  · exact ⟨'F', _, rfl, by decide, by decide⟩
  · exact ⟨'U', _, rfl, by decide, by decide⟩

theorem Entry.strip_line {t : Str} (h : Entry t) : strip (t ++ ['\n']) = t := by
  obtain ⟨c, s, ht, hc, -⟩ := h.head
  obtain ⟨b, hb⟩ := h.ends
  have hr : rstrip (t ++ ['\n']) = rstrip t := by
    simp only [rstrip, List.reverse_append, List.reverse_singleton, List.singleton_append, lstrip]
    rw [List.dropWhile_cons_of_pos (by decide)]
  calc strip (t ++ ['\n']) = rstrip (t ++ ['\n']) := by rw [ht, List.cons_append, strip_cons hc]
    _ = rstrip t := hr
    _ = t := by rw [hb, rstrip_snoc (by decide)]

theorem Entry.isEntry {t : Str} (h : Entry t) : isEntry t = true := by
  obtain ⟨c, s, rfl, -, hc⟩ := h.head
  simp [Testsuite.isEntry, hc]

/-! The files. -/

section Files
variable (order : SetOrder)

/-- The text `writeset` writes. -/
def setText (set1 : Finset Str) : Str := (order.toList set1).flatMap (· ++ ['\n'])

/-- What stands at the path of a set: no file if the set is empty. -/
def setNode (set1 : Finset Str) : Option Node :=
  if set1.card ≠ 0 then some (.text (setText order set1)) else none

theorem writeset_new {fs : FS} {filename : Str} (h : fs filename = none) (set1 : Finset Str) :
    ∃ fs', writeset order fs filename set1 = some fs' ∧ fs' filename = setNode order set1 ∧
      ∀ p, p ≠ filename → fs' p = fs p := by
  rw [writeset, setNode]
  split
  · refine ⟨fun p => if p = filename then some (.text (setText order set1)) else fs p, ?_,
      if_pos rfl, fun p hp => if_neg hp⟩
    rw [appendText, h]
    rfl
  · exact ⟨fs, rfl, h, fun _ _ => rfl⟩

/-- Writing sets to distinct new files. -/
theorem foldlM_writeset : ∀ (fl : List (Str × Finset Str)) (fs : FS), (fl.map Prod.fst).Nodup →
    (∀ f ∈ fl, fs f.1 = none) →
    ∃ fs', fl.foldlM (fun fs f => writeset order fs f.1 f.2) fs = some fs' ∧
      (∀ f ∈ fl, fs' f.1 = setNode order f.2) ∧ ∀ p, p ∉ fl.map Prod.fst → fs' p = fs p
  | [], fs, _, _ => ⟨fs, rfl, by simp, fun _ _ => rfl⟩
  | f :: fl, fs, hnd, hnew => by
    obtain ⟨hf, hnd⟩ := List.nodup_cons.mp hnd
    obtain ⟨fs₁, h₁, hnode, hrest⟩ := writeset_new order (hnew f (by simp)) f.2
    have hnew₁ : ∀ g ∈ fl, fs₁ g.1 = none := by
      intro g hg
      rw [hrest g.1 (fun he => hf (he ▸ List.mem_map.mpr ⟨g, hg, rfl⟩))]
      exact hnew g (by simp [hg])
    obtain ⟨fs', h', hset, hother⟩ := foldlM_writeset fl fs₁ hnd hnew₁
    refine ⟨fs', ?_, ?_, ?_⟩
    · rw [List.foldlM_cons, h₁]
      exact h'
    · intro g hg
      rcases List.mem_cons.mp hg with rfl | hg
      · rw [hother g.1 hf, hnode]
      · exact hset g hg
    · intro p hp
      simp only [List.map_cons, List.mem_cons, not_or] at hp
      rw [hother p hp.2, hrest p hp.1]

/-- The lines of a file are the entries of its set. -/
theorem readlines_setNode {fs : FS} {path : Str} {set1 : Finset Str}
    (hnode : fs path = setNode order set1) (hentry : ∀ t ∈ set1, Entry t)
    (hex : pathExists fs path = true) :
    readlines fs path = some ((order.toList set1).map (· ++ ['\n'])) := by
  have hmem : ∀ t ∈ order.toList set1, Entry t := fun t ht =>
    hentry t ((order.mem_toList set1 t).mp ht)
  rw [pathExists, hnode, setNode] at hex
  rw [readlines, hnode, setNode]
  split at hex
  · rename_i hcard
    have hr : '\r' ∉ setText order set1 := by
      intro h
      obtain ⟨t, ht, htr⟩ := List.mem_flatMap.mp h
      rcases List.mem_append.mp htr with htr | htr
      · exact (hmem t ht).noReturn htr
      · simp at htr
    rw [if_pos hcard]
    show some (splitLines (universalNewlines (setText order set1))) = _
    rw [universalNewlines_eq_self hr, setText, splitLines_flatMap (fun t ht => (hmem t ht).noNewline)]
  · cases hex

end Files

/-! Reading the lists back. -/

/-- The list of a second field holds the lines of all files that have it. -/
theorem foldlM_readGccFile {fs : FS} : ∀ (files : List Str) (st : WhiteListState),
    (∀ f ∈ files, ∃ es, whiteListEntries fs f = .ok es ∧ ∀ l ∈ es, (fieldKey l).isSome) →
    ∃ st', files.foldlM (readGccFile fs) st = .ok st' ∧
      (∀ k x, x ∈ (st.lists.get k).getD [] → x ∈ (st'.lists.get k).getD []) ∧
      ∀ f ∈ files, ∀ es, whiteListEntries fs f = .ok es → ∀ x ∈ es, ∀ k, fieldKey x = some k →
        x ∈ (st'.lists.get k).getD []
  | [], st, _ => ⟨st, rfl, fun _ _ h => h, by simp⟩
  | f :: files, st, h => by
    obtain ⟨es, hes, hkeys⟩ := h f (by simp)
    obtain ⟨st₁, hst₁, hget⟩ := foldlM_of_fields es st hkeys
    obtain ⟨st', hst, hkeep, hall⟩ := foldlM_readGccFile files st₁
      (fun g hg => h g (by simp [hg]))
    have hstep : readGccFile fs st f = .ok st₁ := by
      rw [readGccFile, hes]
      exact hst₁
    refine ⟨st', by rw [List.foldlM_cons, hstep]; exact hst, ?_, ?_⟩
    · -- later files only append
      intro k x hx
      exact hkeep k x (by rw [hget]; exact List.mem_append_left _ hx)
    · intro g hg es' hes' x hx k hk
      rcases List.mem_cons.mp hg with rfl | hg
      · rw [hes] at hes'
        cases hes'
        apply hkeep
        rw [hget]
        exact List.mem_append_right _ (List.mem_filter.mpr ⟨hx, by simpa using hk⟩)
      · exact hall g hg es' hes' x hx k hk

theorem Entry.fieldKey_isSome {t : Str} (h : Entry t) : (fieldKey t).isSome := by
  obtain ⟨m, hm, s, rfl⟩ := h.marker
  obtain ⟨w, hw, rfl⟩ : ∃ w, ' ' ∉ w ∧ m = w ++ [' '] := by
    simp only [List.mem_cons, List.not_mem_nil, or_false] at hm
    rcases hm with rfl | rfl
    · exact ⟨"FAIL:".toList, by decide, rfl⟩
    · exact ⟨"UNRESOLVED:".toList, by decide, rfl⟩
  rw [fieldKey, List.append_assoc, List.singleton_append, split_append hw]
  cases hs : split ' ' s with
  | nil => exact absurd hs (split_ne_nil ' ' s)
  | cons v vs => rfl

/-- What follows a space after an entry does not change its second field. -/
theorem fieldKey_append {t r : Str} (h : (fieldKey t).isSome) (hr : r = [] ∨ ∃ r', r = ' ' :: r') :
    fieldKey (t ++ r) = fieldKey t := by
  rcases hr with rfl | ⟨r', rfl⟩
  · rw [List.append_nil]
  · rw [fieldKey, split_append_sep]
    obtain ⟨k, hk⟩ := Option.isSome_iff_exists.mp h
    have hlt : 1 < (split ' ' t).length := (List.getElem?_eq_some_iff.mp hk).1
    rw [List.getElem?_append_left hlt]
    rfl

/-- Cutting the white space at the end of a line keeps an entry at its start. -/
theorem Entry.strip_append {t w : Str} (h : Entry t) :
    ∃ r, strip (t ++ ' ' :: w) = t ++ r ∧ (r = [] ∨ ∃ r', r = ' ' :: r') := by
  obtain ⟨c, s, hc, hspace, -⟩ := h.head
  obtain ⟨b, hb⟩ := h.ends
  have hstrip : strip (t ++ ' ' :: w) = rstrip (t ++ ' ' :: w) := by
    rw [hc, List.cons_append, strip_cons hspace]
  obtain ⟨r, hr⟩ : t <+: rstrip (t ++ ' ' :: w) := by
    rw [hb]
    exact prefix_rstrip (by decide) (List.prefix_append _ _)
  obtain ⟨v, hv⟩ := rstrip_isPrefix (t ++ ' ' :: w)
  refine ⟨r, by rw [hstrip, hr], ?_⟩
  rw [← hr, List.append_assoc] at hv
  have hrv : r ++ v = ' ' :: w := List.append_cancel_left hv
  cases r with
  | nil => exact Or.inl rfl
  | cons x r => exact Or.inr ⟨r, by rw [(List.cons.inj hrv).1]⟩

/-! The four configurations. -/

inductive Configuration where
  | newlib32
  | newlib64
  | linux32
  | linux64

/-- The names `gen` writes to. -/
def fileNames : List Str :=
  ["res/common.log".toList, "res/rv32.log".toList, "res/rv64.log".toList, "res/glibc.log".toList,
    "res/newlib.log".toList, "res/glibc.rv32.log".toList, "res/glibc.rv64.log".toList,
    "res/newlib.rv32.log".toList, "res/newlib.rv64.log".toList]

theorem names_nodup (l : LogSets) : (l.files.map Prod.fst).Nodup := by
  show fileNames.Nodup
  decide

theorem names_in_res (l : LogSets) : ∀ f ∈ l.files, "res/".toList <+: f.1 := by
  have hnames : ∀ n ∈ fileNames, "res/".toList <+: n := by decide
  intro f hf
  exact hnames f.1 (List.mem_map.mpr ⟨f, hf, rfl⟩)

/-- The sets by name. -/
def LogSets.table (l : LogSets) : Dict Str (Finset Str) := ⟨l.files, names_nodup l⟩

namespace Configuration

def arch : Configuration → Str
  | .newlib32 | .linux32 => "rv32gc".toList
  | .newlib64 | .linux64 => "rv64gc".toList

def abi : Configuration → Str
  | .newlib32 | .linux32 => "ilp32d".toList
  | .newlib64 | .linux64 => "lp64d".toList

def libc : Configuration → Str
  | .newlib32 | .newlib64 => "newlib".toList
  | .linux32 | .linux64 => "glibc".toList

def log : Configuration → Str
  | .newlib32 => newlib32Log
  | .newlib64 => newlib64Log
  | .linux32 => linux32Log
  | .linux64 => linux64Log

/-- The set of the configuration's own log. -/
def ownSet : Configuration → LogSets → Finset Str
  | .newlib32, l => l.newlib32
  | .newlib64, l => l.newlib64
  | .linux32, l => l.linux32
  | .linux64, l => l.linux64

/-- What `Arch` reads from the configuration's arch. -/
def archOf : Configuration → ArchString.Arch
  | .newlib32 | .linux32 => ⟨"rv32".toList, "imafdc".toList.map ([·])⟩
  | .newlib64 | .linux64 => ⟨"rv64".toList, "imafdc".toList.map ([·])⟩

/-- The paths `get_white_list_files` tries in `res`. -/
def paths (cfg : Configuration) : List Str :=
  (whiteListNames cfg.archOf cfg.abi cfg.libc).map (pathJoin "res".toList)

theorem getWhiteListFiles_eq (cfg : Configuration) (fs : FS) :
    getWhiteListFiles fs cfg.arch cfg.abi cfg.libc "res".toList =
      .ok (cfg.paths.filter (pathExists fs)) := by
  cases cfg <;> rfl

theorem path_in_res (cfg : Configuration) : ∀ f ∈ cfg.paths, "res/".toList <+: f := by
  cases cfg <;> decide

/-- The sets whose files the configuration selects. -/
def selected : Configuration → LogSets → List (Finset Str)
  | .newlib32, l => [l.commonerror, l.newlib, l.rv32, ((l.newlib32 \ l.rv32) \ l.newlib) \ l.commonerror]
  | .newlib64, l => [l.commonerror, l.newlib, l.rv64, ((l.newlib64 \ l.rv64) \ l.newlib) \ l.commonerror]
  | .linux32, l => [l.commonerror, l.glibc, l.rv32, ((l.linux32 \ l.rv32) \ l.glibc) \ l.commonerror]
  | .linux64, l => [l.commonerror, l.glibc, l.rv64, ((l.linux64 \ l.rv64) \ l.glibc) \ l.commonerror]

/-- Of the paths tried, the files of these sets are the ones `gen` writes. -/
theorem filterMap_lookup_paths (cfg : Configuration) (l : LogSets) :
    cfg.paths.filterMap (fun f => l.table.get f) = cfg.selected l := by
  cases cfg <;> rfl

/-- The selected sets recombine to the set of the log. -/
theorem union_selected (cfg : Configuration) (l : LogSets) (t : Str) :
    (∃ set1 ∈ cfg.selected l, t ∈ set1) ↔ t ∈ cfg.ownSet l := by
  cases cfg <;>
    simp only [selected, ownSet, List.mem_cons, List.not_mem_nil, or_false, exists_eq_or_imp,
      exists_eq_left, LogSets.commonerror, LogSets.newlib, LogSets.glibc, LogSets.rv32,
      LogSets.rv64, Finset.mem_inter, Finset.mem_sdiff] <;>
    tauto

end Configuration

theorem mem_files_sets (l : LogSets) : ∀ f ∈ l.files, ∀ t ∈ f.2,
    t ∈ l.newlib64 ∨ t ∈ l.newlib32 ∨ t ∈ l.linux64 ∨ t ∈ l.linux32 := by
  intro f hf t ht
  simp only [LogSets.files, List.mem_cons, List.not_mem_nil, or_false] at hf
  rcases hf with rfl | rfl | rfl | rfl | rfl | rfl | rfl | rfl | rfl <;>
    simp only [LogSets.commonerror, LogSets.newlib, LogSets.glibc, LogSets.rv32,
      LogSets.rv64, Finset.mem_inter, Finset.mem_sdiff] at ht <;>
    tauto

/-- What `gen` leaves in `res`: the files of its sets, and nothing else. -/
structure Generated (order : SetOrder) (l : LogSets) (fs' : FS) : Prop where
  written : ∀ f set1, l.table.get f = some set1 → fs' f = setNode order set1
  nothing : ∀ f, "res/".toList <+: f → l.table.get f = none → fs' f = none
  entry : ∀ f ∈ l.files, ∀ t ∈ f.2, Entry t

theorem readLogs_own {fs : FS} {l : LogSets} (h : readLogs fs = some l) (cfg : Configuration) :
    processlog fs cfg.log = some (cfg.ownSet l) := by
  simp only [readLogs, Option.bind_eq_bind, Option.bind_eq_some_iff] at h
  obtain ⟨n64, h₁, n32, h₂, l64, h₃, l32, h₄, hl⟩ := h
  cases hl
  cases cfg
  · exact h₂
  · exact h₁
  · exact h₄
  · exact h₃

theorem gen_generated (order : SetOrder) {fs : FS} {l : LogSets} (hlogs : readLogs fs = some l)
    (hempty : ∀ p, "res/".toList <+: p → fs p = none) :
    ∃ fs', gen order fs = some fs' ∧ Generated order l fs' := by
  obtain ⟨fs', hfold, hset, hother⟩ := foldlM_writeset order l.files fs (names_nodup l)
    (fun f hf => hempty f.1 (names_in_res l f hf))
  refine ⟨fs', ?_, ?_, ?_, ?_⟩
  · rw [gen, hlogs]
    exact hfold
  · intro f set1 hf
    exact hset (f, set1) (Dict.get_eq_some_iff.mp hf)
  · intro f hres hnone
    rw [hother f, hempty f hres]
    intro hmem
    obtain ⟨⟨g, set1⟩, hg, rfl⟩ := List.mem_map.mp hmem
    have hget : l.table.get g = some set1 := Dict.get_eq_some_iff.mpr hg
    rw [hget] at hnone
    cases hnone
  · intro f hf t ht
    rcases mem_files_sets l f hf t ht with h | h | h | h
    · exact entry_of_mem_processlog (readLogs_own hlogs .newlib64) t h
    · exact entry_of_mem_processlog (readLogs_own hlogs .newlib32) t h
    · exact entry_of_mem_processlog (readLogs_own hlogs .linux64) t h
    · exact entry_of_mem_processlog (readLogs_own hlogs .linux32) t h

namespace Generated
variable {order : SetOrder} {l : LogSets} {fs' : FS}

/-- A file the filter selects is one of the sets, with its entries as lines. -/
theorem selected_file (h : Generated order l fs') {cfg : Configuration} {f : Str}
    (hf : f ∈ cfg.paths.filter (pathExists fs')) :
    ∃ set1, l.table.get f = some set1 ∧ (∀ t ∈ set1, Entry t) ∧
      readlines fs' f = some ((order.toList set1).map (· ++ ['\n'])) := by
  obtain ⟨hpath, hex⟩ := List.mem_filter.mp hf
  cases hl : l.table.get f with
  | none =>
    rw [pathExists, h.nothing f (cfg.path_in_res f hpath) hl] at hex
    cases hex
  | some set1 =>
    have hentry : ∀ t ∈ set1, Entry t :=
      h.entry (f, set1) (Dict.get_eq_some_iff.mp hl)
    exact ⟨set1, rfl, hentry, readlines_setNode order (h.written f set1 hl) hentry hex⟩

/-- A set with an element has a file that is selected. -/
theorem file_selected (h : Generated order l fs') {cfg : Configuration} {set1 : Finset Str}
    (hset : set1 ∈ cfg.selected l) {t : Str} (ht : t ∈ set1) :
    ∃ f ∈ cfg.paths.filter (pathExists fs'), l.table.get f = some set1 := by
  rw [← cfg.filterMap_lookup_paths l] at hset
  obtain ⟨f, hf, hl⟩ := List.mem_filterMap.mp hset
  refine ⟨f, List.mem_filter.mpr ⟨hf, ?_⟩, hl⟩
  have hcard : set1.card ≠ 0 := Finset.card_ne_zero_of_mem ht
  rw [pathExists, h.written f set1 hl, setNode, if_pos hcard]
  rfl

theorem whiteListEntries_file (h : Generated order l fs') {cfg : Configuration} {f : Str}
    (hf : f ∈ cfg.paths.filter (pathExists fs')) :
    ∃ set1, l.table.get f = some set1 ∧
      whiteListEntries fs' f = .ok (order.toList set1) ∧ ∀ t ∈ order.toList set1, Entry t := by
  obtain ⟨set1, hl, hentry, hread⟩ := h.selected_file hf
  have hall : ∀ t ∈ order.toList set1, Entry t := fun t ht =>
    hentry t ((order.mem_toList set1 t).mp ht)
  refine ⟨set1, hl, ?_, hall⟩
  rw [whiteListEntries, hread]
  have hmap : ((order.toList set1).map (· ++ ['\n'])).map strip = order.toList set1 := by
    rw [List.map_map]
    calc (order.toList set1).map (strip ∘ (· ++ ['\n']))
        = (order.toList set1).map id := List.map_congr_left (fun t ht => (hall t ht).strip_line)
      _ = order.toList set1 := List.map_id _
  show Except.ok (List.filter isEntry (List.map strip _)) = _
  rw [hmap, List.filter_eq_self.mpr (fun t ht => (hall t ht).isEntry)]

/-- The lines of the selected files are the set of the configuration's own log. -/
theorem union_eq (h : Generated order l fs') (cfg : Configuration) (t : Str) :
    (∃ f ∈ cfg.paths.filter (pathExists fs'), ∃ ls, readlines fs' f = some ls ∧ t ++ ['\n'] ∈ ls) ↔
      t ∈ cfg.ownSet l := by
  rw [← cfg.union_selected l]
  refine ⟨?_, ?_⟩
  · intro ⟨f, hf, ls, hls, hmem⟩
    obtain ⟨set1, hl, -, hread⟩ := h.selected_file hf
    rw [hread] at hls
    cases hls
    obtain ⟨t', ht', he⟩ := List.mem_map.mp hmem
    obtain rfl : t' = t := List.append_cancel_right he
    refine ⟨set1, ?_, (order.mem_toList set1 t').mp ht'⟩
    rw [← cfg.filterMap_lookup_paths l]
    exact List.mem_filterMap.mpr ⟨f, (List.mem_filter.mp hf).1, hl⟩
  · intro ⟨set1, hset, ht⟩
    obtain ⟨f, hf, hl⟩ := h.file_selected hset ht
    obtain ⟨set2, hl', -, hread⟩ := h.selected_file hf
    rw [hl] at hl'
    cases hl'
    exact ⟨f, hf, _, hread, List.mem_map.mpr ⟨t, (order.mem_toList set1 t).mpr ht, rfl⟩⟩

/-- A result that starts with an entry of the log and goes on with a space is ignored. -/
theorem ignored_entry (h : Generated order l fs') (cfg : Configuration) {t r : Str}
    (ht : t ∈ cfg.ownSet l) (hr : r = [] ∨ ∃ r', r = ' ' :: r') :
    ∃ whiteList, getWhiteList fs' cfg.arch cfg.abi cfg.libc "res".toList true = .ok whiteList ∧
      ignored whiteList (t ++ r) = .ok true := by
  obtain ⟨st', hst, -, hall⟩ := @foldlM_readGccFile fs' (cfg.paths.filter (pathExists fs'))
    ⟨Dict.empty, none⟩ (by
      intro f hf
      obtain ⟨set1, -, hes, hentry⟩ := h.whiteListEntries_file hf
      exact ⟨_, hes, fun x hx => (hentry x hx).fieldKey_isSome⟩)
  refine ⟨.gcc st'.lists, ?_, ?_⟩
  · rw [getWhiteList, cfg.getWhiteListFiles_eq]
    show readWhiteLists fs' _ true = _
    rw [readWhiteLists, if_pos rfl, hst]
    rfl
  · obtain ⟨set1, hset, hmem⟩ := (cfg.union_selected l t).mpr ht
    obtain ⟨f, hf, hl⟩ := h.file_selected hset hmem
    obtain ⟨set2, hl', hes, hentry⟩ := h.whiteListEntries_file hf
    rw [hl] at hl'
    cases hl'
    have htl := (order.mem_toList set1 t).mpr hmem
    obtain ⟨k, hk⟩ := Option.isSome_iff_exists.mp (hentry t htl).fieldKey_isSome
    have hin := hall f hf _ hes t htl k hk
    -- the result is looked up under the second field of the entry
    have hkey : (split ' ' (t ++ r))[1]? = some k := by
      rw [← hk]
      exact fieldKey_append (hentry t htl).fieldKey_isSome hr
    simp only [ignored, hkey]
    congr 1
    exact List.any_eq_true.mpr ⟨t, hin, startsWith_append t r⟩

end Generated

/-- What follows each status marker of a line, the marker included. -/
def markerSuffixes (line : Str) : List Str :=
  line.tails.filter fun u => startsWith "FAIL: ".toList u || startsWith "UNRESOLVED: ".toList u

theorem Extracted.suffix_mem {line t : Str} (h : Extracted line t) :
    ∃ w, t ++ ' ' :: w ∈ markerSuffixes line := by
  obtain ⟨a, w, hline⟩ := h.occurs
  obtain ⟨m, hm, s, hs⟩ := h.marker
  refine ⟨w, List.mem_filter.mpr ⟨?_, ?_⟩⟩
  · rw [List.mem_tails, hline]
    exact List.suffix_append _ _
  · simp only [List.mem_cons, List.not_mem_nil, or_false] at hm
    rw [← hs, List.append_assoc]
    rw [Bool.or_eq_true]
    rcases hm with rfl | rfl
    · exact Or.inl (startsWith_append _ _)
    · exact Or.inr (startsWith_append _ _)

/-- The generated allowlists are complete and do not leak: the files a configuration selects
    hold exactly what its own log shows, and a line of the log with one status marker is
    ignored when it comes back as a result. -/
theorem gen_complete (order : SetOrder) (fs : FS)
    (hlogs : ∀ cfg : Configuration, (readlines fs cfg.log).isSome)
    (hempty : ∀ p, "res/".toList <+: p → fs p = none) :
    ∃ fs', gen order fs = some fs' ∧ ∀ cfg : Configuration,
      (∃ own files, processlog fs cfg.log = some own ∧
        getWhiteListFiles fs' cfg.arch cfg.abi cfg.libc "res".toList = .ok files ∧
        ∀ t, (∃ f ∈ files, ∃ ls, readlines fs' f = some ls ∧ t ++ ['\n'] ∈ ls) ↔ t ∈ own) ∧
      ∀ data, readlines fs cfg.log = some data → ∀ line ∈ data, (processline line).isSome →
        ∀ u, markerSuffixes line = [u] → ∃ whiteList,
          getWhiteList fs' cfg.arch cfg.abi cfg.libc "res".toList true = .ok whiteList ∧
          ignored whiteList (strip u) = .ok true := by
  obtain ⟨l, hl⟩ : ∃ l, readLogs fs = some l := by
    obtain ⟨d₁, h₁⟩ := Option.isSome_iff_exists.mp (hlogs .newlib64)
    obtain ⟨d₂, h₂⟩ := Option.isSome_iff_exists.mp (hlogs .newlib32)
    obtain ⟨d₃, h₃⟩ := Option.isSome_iff_exists.mp (hlogs .linux64)
    obtain ⟨d₄, h₄⟩ := Option.isSome_iff_exists.mp (hlogs .linux32)
    simp only [Configuration.log] at h₁ h₂ h₃ h₄
    simp only [readLogs, processlog, h₁, h₂, h₃, h₄]
    exact ⟨_, rfl⟩
  obtain ⟨fs', hgen, h⟩ := gen_generated order hl hempty
  refine ⟨fs', hgen, ?_⟩
  intro cfg
  refine ⟨⟨cfg.ownSet l, _, readLogs_own hl cfg, cfg.getWhiteListFiles_eq fs', h.union_eq cfg⟩, ?_⟩
  intro data hdata line hline hsome u hu
  obtain ⟨t, ht⟩ := Option.isSome_iff_exists.mp hsome
  -- what was extracted starts at a marker, and there is one only
  obtain ⟨w, hw⟩ := (processline_extracted ht).suffix_mem
  rw [hu, List.mem_singleton] at hw
  have hown : t ∈ cfg.ownSet l := by
    have hlog := readLogs_own hl cfg
    rw [processlog, hdata] at hlog
    have hset : (data.filterMap processline).toFinset = cfg.ownSet l := Option.some.inj hlog
    rw [← hset, List.mem_toFinset]
    exact List.mem_filterMap.mpr ⟨line, hline, ht⟩
  obtain ⟨r, hstrip, hr⟩ :=
    (entry_of_mem_processlog (readLogs_own hl cfg) t hown).strip_append (w := w)
  obtain ⟨whiteList, hwl, hig⟩ := h.ignored_entry cfg hown hr
  refine ⟨whiteList, hwl, ?_⟩
  rw [← hw, hstrip]
  exact hig

/-- Sets written in lexicographic order. -/
def lexicographic : SetOrder := ⟨fun s => s.sort (· ≤ ·), fun _ _ => Finset.mem_sort _⟩

/-- Four logs, one of which shows a failure. -/
def oneFailure : FS := FS.ofList
  [(newlib64Log, "2025 FAIL: gcc.dg/a.c (test for excess errors)\n".toList), (newlib32Log, []),
    (linux64Log, []), (linux32Log, [])]

theorem gen_oneFailure : ∃ fs' whiteList, gen lexicographic oneFailure = some fs' ∧
    getWhiteList fs' "rv64gc".toList "lp64d".toList "newlib".toList "res".toList true =
      .ok whiteList ∧
    ignored whiteList "FAIL: gcc.dg/a.c (test for excess errors)".toList = .ok true := by
  have hlogs : ∀ cfg : Configuration, (readlines oneFailure cfg.log).isSome := by
    intro cfg
    cases cfg <;> rfl
  have hempty : ∀ p, "res/".toList <+: p → oneFailure p = none := by
    intro p ⟨s, hs⟩
    rw [← hs]
    rfl
  obtain ⟨fs', hgen, hcfg⟩ := gen_complete lexicographic oneFailure hlogs hempty
  let line := "2025 FAIL: gcc.dg/a.c (test for excess errors)\n".toList
  have hdata : readlines oneFailure Configuration.newlib64.log = some [line] := rfl
  have hmatch : (processline line).isSome := by decide +kernel
  have hmarker : markerSuffixes line =
      ["FAIL: gcc.dg/a.c (test for excess errors)\n".toList] := by decide +kernel
  obtain ⟨whiteList, hwl, hig⟩ :=
    (hcfg .newlib64).2 [line] hdata line List.mem_cons_self hmatch _ hmarker
  exact ⟨fs', whiteList, hgen, hwl, hig⟩

end Testsuite
