import RiscvToolchain.Testsuite.Filter
import RiscvToolchain.Python.Raises

/- Which results the allowlists for gcc excuse. An entry is kept under its second
   field and excuses the results that have this field and start with it. A line with
   fewer than two fields is reported as corrupt and then kept under the field of the
   last line that had one, because `key` still holds it; where no line before it had
   one, `key` is unbound and the run ends. -/
namespace Testsuite
open Python

/-- The second field of a line. -/
def fieldKey (l : Str) : Option Str := (split ' ' l)[1]?

/-! The value of `key` at each line. -/

/-- The lines, each with the value of `key` that it is kept under. -/
def keyed : Option Str → List Str → List (Option Str × Str)
  | _, [] => []
  | key, l :: es => ((fieldKey l).or key, l) :: keyed ((fieldKey l).or key) es

theorem whiteListLine_eq (st : WhiteListState) {l k : Str} (h : (fieldKey l).or st.key = some k) :
    whiteListLine st l = .ok ⟨st.lists.set k ((st.lists.get k).getD [] ++ [l]), some k⟩ := by
  rw [fieldKey] at h
  simp only [whiteListLine, h]

/-- Where `key` is never unbound, the list of a field holds the lines kept under it, in order. -/
theorem foldlM_whiteListLine : ∀ (es : List Str) (st : WhiteListState),
    (∀ p ∈ keyed st.key es, p.1.isSome) →
    ∃ st', es.foldlM whiteListLine st = .ok st' ∧
      ∀ k, (st'.lists.get k).getD [] = (st.lists.get k).getD [] ++
        ((keyed st.key es).filter fun p => p.1 = some k).map Prod.snd
  | [], st, _ => ⟨st, rfl, fun k => by simp [keyed]⟩
  | l :: es, st, h => by
    obtain ⟨key, hkey⟩ : ∃ key, (fieldKey l).or st.key = some key :=
      Option.isSome_iff_exists.mp (h _ List.mem_cons_self)
    have hline := whiteListLine_eq st hkey
    obtain ⟨st', hst, hget⟩ := foldlM_whiteListLine es
      ⟨st.lists.set key ((st.lists.get key).getD [] ++ [l]), some key⟩
      (fun p hp => h p (by rw [keyed, hkey]; exact List.mem_cons_of_mem _ hp))
    refine ⟨st', by rw [List.foldlM_cons, hline]; exact hst, ?_⟩
    intro k
    rw [hget k, Dict.get_set, keyed, hkey, List.filter_cons]
    by_cases hk : k = key
    · subst hk
      simp
    · simp [hk, Ne.symm hk]

theorem keyed_of_fields : ∀ {es : List Str} (key : Option Str), (∀ l ∈ es, (fieldKey l).isSome) →
    keyed key es = es.map fun l => (fieldKey l, l)
  | [], _, _ => rfl
  | l :: es, key, h => by
    have hl : (fieldKey l).or key = fieldKey l := Option.or_of_isSome (h l List.mem_cons_self)
    rw [keyed, hl, keyed_of_fields _ fun x hx => h x (List.mem_cons_of_mem _ hx), List.map_cons]

/-- Lines that have a second field are kept under it. -/
theorem foldlM_of_fields (es : List Str) (st : WhiteListState) (h : ∀ l ∈ es, (fieldKey l).isSome) :
    ∃ st', es.foldlM whiteListLine st = .ok st' ∧ ∀ k,
      (st'.lists.get k).getD [] = (st.lists.get k).getD [] ++ es.filter fun l => fieldKey l = some k := by
  have hkeyed := keyed_of_fields st.key h
  obtain ⟨st', hst, hget⟩ := foldlM_whiteListLine es st (by
    rw [hkeyed]
    intro p hp
    obtain ⟨l, hl, rfl⟩ := List.mem_map.mp hp
    exact h l hl)
  refine ⟨st', hst, ?_⟩
  intro k
  rw [hget k, hkeyed, List.filter_map, List.map_map]
  simp [Function.comp_def]

/-- A run that does not end early had a value in `key` at every line. -/
theorem isSome_of_foldlM : ∀ (es : List Str) {st st' : WhiteListState},
    es.foldlM whiteListLine st = .ok st' → ∀ p ∈ keyed st.key es, p.1.isSome
  | [], _, _, _ => by simp [keyed]
  | l :: es, st, st', h => by
    obtain ⟨st₁, hline, hrest⟩ := foldlM_cons_ok h
    rw [keyed]
    cases hkey : (fieldKey l).or st.key with
    | none =>
      rw [fieldKey] at hkey
      simp [whiteListLine, hkey] at hline
    | some k =>
      rw [whiteListLine_eq st hkey] at hline
      cases hline
      intro p hp
      rcases List.mem_cons.mp hp with rfl | hp
      · rfl
      · exact isSome_of_foldlM es hrest p hp

theorem isSome_of_mem_keyed : ∀ (es : List Str) {key : Option Str}, key.isSome →
    ∀ p ∈ keyed key es, p.1.isSome
  | [], _, _ => by simp [keyed]
  | l :: es, key, hkey => by
    have h : ((fieldKey l).or key).isSome := by
      cases fieldKey l with
      | none => exact hkey
      | some k => rfl
    intro p hp
    rcases List.mem_cons.mp hp with rfl | hp
    · exact h
    · exact isSome_of_mem_keyed es h p hp

/-- `key` is unbound at some line only if it is at the first. -/
theorem isSome_keyed_iff (es : List Str) :
    (∀ p ∈ keyed none es, p.1.isSome) ↔ ∀ l ∈ es.head?, (fieldKey l).isSome := by
  cases es with
  | nil => simp [keyed]
  | cons l es =>
    constructor
    · intro h x hx
      cases hx
      simpa using h _ List.mem_cons_self
    · intro h p hp
      have hl : ((fieldKey l).or none).isSome := by simpa using h l rfl
      rcases List.mem_cons.mp hp with rfl | hp
      · exact hl
      · exact isSome_of_mem_keyed es hl p hp

/-! The lines that are kept under the field of another. -/

/-- `l` has no second field, and no line before it has. -/
def Leading (es : List Str) (l : Str) : Prop :=
  fieldKey l = none ∧ ∃ short post, es = short ++ l :: post ∧ ∀ x ∈ short, fieldKey x = none

/-- `l` has no second field, and the last line before it that has one has `k`. -/
def Stale (k : Str) (es : List Str) (l : Str) : Prop :=
  ∃ pre w rest, es = pre ++ w :: rest ∧ fieldKey w = some k ∧ Leading rest l

theorem Stale.mem {k l : Str} {es : List Str} (h : Stale k es l) : l ∈ es ∧ fieldKey l = none := by
  obtain ⟨pre, w, rest, rfl, -, hl, short, post, rfl, -⟩ := h
  exact ⟨by simp, hl⟩

theorem leading_cons_iff {e l : Str} {es : List Str} :
    Leading (e :: es) l ↔ fieldKey e = none ∧ (e = l ∨ Leading es l) := by
  constructor
  · intro ⟨hl, short, post, hes, hshort⟩
    cases short with
    | nil =>
      obtain ⟨rfl, -⟩ := List.cons.inj hes
      exact ⟨hl, Or.inl rfl⟩
    | cons x short =>
      obtain ⟨rfl, htail⟩ := List.cons.inj hes
      exact ⟨hshort e List.mem_cons_self,
        Or.inr ⟨hl, short, post, htail, fun x hx => hshort x (List.mem_cons_of_mem _ hx)⟩⟩
  · intro ⟨he, h⟩
    rcases h with rfl | ⟨hl, short, post, rfl, hshort⟩
    · exact ⟨he, [], es, rfl, by simp⟩
    · refine ⟨hl, e :: short, post, rfl, ?_⟩
      intro x hx
      rcases List.mem_cons.mp hx with rfl | hx
      · exact he
      · exact hshort x hx

theorem stale_cons_iff {k e l : Str} {es : List Str} :
    Stale k (e :: es) l ↔ (fieldKey e = some k ∧ Leading es l) ∨ Stale k es l := by
  constructor
  · intro ⟨pre, w, rest, hes, hw, hl⟩
    cases pre with
    | nil =>
      obtain ⟨rfl, rfl⟩ := List.cons.inj hes
      exact Or.inl ⟨hw, hl⟩
    | cons x pre =>
      obtain ⟨-, hes⟩ := List.cons.inj hes
      exact Or.inr ⟨pre, w, rest, hes, hw, hl⟩
  · intro h
    rcases h with ⟨he, hl⟩ | ⟨pre, w, rest, rfl, hw, hl⟩
    · exact ⟨[], e, es, rfl, he, hl⟩
    · exact ⟨e :: pre, w, rest, rfl, hw, hl⟩

/-- The lines kept under a field: those that have it, and those that are kept under it
    because they have none. -/
theorem mem_keyed_iff {k l : Str} : ∀ (es : List Str) (key : Option Str),
    (some k, l) ∈ keyed key es ↔
      (l ∈ es ∧ fieldKey l = some k) ∨ Stale k es l ∨ (key = some k ∧ Leading es l)
  | [], key => by simp [keyed, Stale, Leading]
  | e :: es, key => by
    rw [keyed, List.mem_cons, mem_keyed_iff es, stale_cons_iff, leading_cons_iff, Prod.mk.injEq,
      List.mem_cons]
    cases he : fieldKey e with
    | none =>
      by_cases hel : l = e
      · subst hel
        simp [he]
        tauto
      · simp [hel, Ne.symm hel]
    | some k' =>
      by_cases hel : l = e
      · subst hel
        simp [he]
        tauto
      · simp [hel]
        tauto

/-! What the lists excuse. -/

/-- The stripped lines of the files. -/
def strippedLines (fs : FS) (files : List Str) : List Str :=
  files.flatMap fun f => ((readlines fs f).getD []).map strip

/-- A line that names a result: not empty, no comment, with at least two fields, the second
    that of the result, and a prefix of it. -/
structure Excuses (l ur : Str) : Prop where
  entry : isEntry l = true
  fields : (fieldKey l).isSome
  sameField : fieldKey l = fieldKey ur
  isPrefix : l <+: ur

/-- The lists of the files can be built, and they excuse a result exactly when a line names it. -/
def ExcusesExactly (fs : FS) (files : List Str) (ur : Str) : Prop :=
  ∃ whiteList, readWhiteLists fs files true = .ok whiteList ∧
    (ignored whiteList ur = .ok true ↔ ∃ l ∈ strippedLines fs files, Excuses l ur)

section Lists
variable {fs : FS} {files : List Str}

/-- The files are read as one. -/
theorem foldlM_readGccFile_eq (hread : ∀ f ∈ files, ∃ text, fs f = some (.text text))
    (st : WhiteListState) : files.foldlM (readGccFile fs) st =
      ((strippedLines fs files).filter isEntry).foldlM whiteListLine st := by
  induction files generalizing st with
  | nil => rfl
  | cons f files ih =>
    obtain ⟨text, htext⟩ := hread f List.mem_cons_self
    have hfile : readGccFile fs st f =
        ((((readlines fs f).getD []).map strip).filter isEntry).foldlM whiteListLine st := by
      rw [readGccFile, whiteListEntries, readlines, htext]
      rfl
    have hrest : (fun st' => files.foldlM (readGccFile fs) st') =
        fun st' => ((strippedLines fs files).filter isEntry).foldlM whiteListLine st' := by
      funext st'
      exact ih (fun g hg => hread g (List.mem_cons_of_mem _ hg)) st'
    have hlines : strippedLines fs (f :: files) =
        ((readlines fs f).getD []).map strip ++ strippedLines fs files := List.flatMap_cons
    rw [List.foldlM_cons, hrest, hfile, hlines, List.filter_append, List.foldlM_append]

theorem readWhiteLists_gcc (hread : ∀ f ∈ files, ∃ text, fs f = some (.text text)) :
    readWhiteLists fs files true =
      (((strippedLines fs files).filter isEntry).foldlM whiteListLine ⟨Dict.empty, none⟩).map
        fun st => .gcc st.lists := by
  rw [readWhiteLists, if_pos rfl, foldlM_readGccFile_eq hread]
  cases ((strippedLines fs files).filter isEntry).foldlM whiteListLine ⟨Dict.empty, none⟩ <;> rfl

theorem ignored_gcc_iff {lists : Dict Str (List Str)} {ur k : Str} (hk : fieldKey ur = some k) :
    ignored (.gcc lists) ur = .ok true ↔ ∃ l ∈ (lists.get k).getD [], l <+: ur := by
  rw [fieldKey] at hk
  simp only [ignored, hk, Except.ok.injEq, List.any_eq_true, startsWith_iff]

/-- The lists can be built exactly when the first entry has two fields, and then a result is
    excused by the lines that name it and by those kept under its field for want of their own. -/
theorem ignored_iff_of_first (hread : ∀ f ∈ files, ∃ text, fs f = some (.text text))
    (hfirst : ∀ l ∈ ((strippedLines fs files).filter isEntry).head?, (fieldKey l).isSome)
    {ur k : Str} (hk : fieldKey ur = some k) :
    ∃ whiteList, readWhiteLists fs files true = .ok whiteList ∧
      (ignored whiteList ur = .ok true ↔
        (∃ l ∈ strippedLines fs files, Excuses l ur) ∨
        ∃ l, Stale k ((strippedLines fs files).filter isEntry) l ∧ l <+: ur) := by
  obtain ⟨st, hst, hget⟩ := foldlM_whiteListLine _ ⟨Dict.empty, none⟩ ((isSome_keyed_iff _).mpr hfirst)
  refine ⟨.gcc st.lists, by rw [readWhiteLists_gcc hread, hst]; rfl, ?_⟩
  have hmem : ∀ l, l ∈ (st.lists.get k).getD [] ↔
      (some k, l) ∈ keyed none ((strippedLines fs files).filter isEntry) := by
    intro l
    rw [hget k]
    simp [Dict.get, Dict.empty]
  rw [ignored_gcc_iff hk]
  simp only [hmem, mem_keyed_iff, reduceCtorEq, false_and, or_false, or_and_right, exists_or]
  -- the lines kept under their own field are those that excuse; the stale ones stay
  refine or_congr ?_ Iff.rfl
  constructor
  · intro hkept
    obtain ⟨l, ⟨hl, hkey⟩, hpre⟩ := hkept
    obtain ⟨hl, hentry⟩ := List.mem_filter.mp hl
    exact ⟨l, hl, hentry, by rw [hkey]; rfl, by rw [hkey, hk], hpre⟩
  · intro hline
    obtain ⟨l, hl, h⟩ := hline
    exact ⟨l, ⟨List.mem_filter.mpr ⟨hl, h.entry⟩, by rw [h.sameField, hk]⟩, h.isPrefix⟩

end Lists

/-- Corrupt lines do no harm: none is the first entry, and where one is kept under the second
    field of a result that it is a prefix of, some line names that result. -/
structure CorruptHarmless (lines : List Str) (ur : Str) : Prop where
  first : ∀ l ∈ (lines.filter isEntry).head?, (fieldKey l).isSome
  later : ∀ k l, fieldKey ur = some k → Stale k (lines.filter isEntry) l → l <+: ur →
    ∃ x ∈ lines, Excuses x ur

theorem excusesExactly_iff {fs : FS} {files : List Str}
    (hread : ∀ f ∈ files, ∃ text, fs f = some (.text text)) {ur : Str} (hur : (fieldKey ur).isSome) :
    ExcusesExactly fs files ur ↔ CorruptHarmless (strippedLines fs files) ur := by
  obtain ⟨k, hk⟩ := Option.isSome_iff_exists.mp hur
  constructor
  · intro ⟨whiteList, hlists, hexact⟩
    have hfirst : ∀ l ∈ ((strippedLines fs files).filter isEntry).head?, (fieldKey l).isSome := by
      rw [readWhiteLists_gcc hread] at hlists
      rw [← isSome_keyed_iff]
      cases hst : ((strippedLines fs files).filter isEntry).foldlM whiteListLine
          ⟨Dict.empty, none⟩ with
      | error e =>
        rw [hst] at hlists
        cases hlists
      | ok st => exact isSome_of_foldlM _ hst
    refine ⟨hfirst, ?_⟩
    intro k' l hk' hstale hpre
    obtain rfl : k = k' := Option.some.inj (hk.symm.trans hk')
    obtain ⟨whiteList', hlists', hignored⟩ := ignored_iff_of_first hread hfirst hk
    obtain rfl : whiteList = whiteList' := Except.ok.inj (hlists.symm.trans hlists')
    exact hexact.mp (hignored.mpr (Or.inr ⟨l, hstale, hpre⟩))
  · intro h
    obtain ⟨whiteList, hlists, hignored⟩ := ignored_iff_of_first hread h.first hk
    refine ⟨whiteList, hlists, hignored.trans ?_⟩
    rw [or_iff_left_iff_imp]
    intro ⟨l, hstale, hpre⟩
    exact h.later k l hk hstale hpre

/-- An allowlist of the given lines. -/
def allowlist (lines : List Str) : FS :=
  FS.ofList [("gcc/common.log".toList, lines.flatMap (· ++ ['\n']))]

theorem allowlist_reads (lines : List Str) :
    ∀ f ∈ ["gcc/common.log".toList], ∃ text, allowlist lines f = some (.text text) := by
  intro f hf
  obtain rfl := List.mem_singleton.mp hf
  exact ⟨_, rfl⟩

/-- A corrupt line that no result starts with. -/
theorem excusesExactly_todo : ExcusesExactly
    (allowlist ["# known".toList, "FAIL: a.c -O0".toList, "TODO".toList]) ["gcc/common.log".toList]
    "FAIL: a.c -O3".toList := by
  have hcorrupt : ∀ l ∈ (strippedLines (allowlist ["# known".toList, "FAIL: a.c -O0".toList,
      "TODO".toList]) ["gcc/common.log".toList]).filter isEntry,
      fieldKey l = none → ¬ l <+: "FAIL: a.c -O3".toList := by decide
  refine (excusesExactly_iff (allowlist_reads _) rfl).mpr ⟨by decide, ?_⟩
  intro k l _ hstale hpre
  exact absurd hpre (hcorrupt l hstale.mem.1 hstale.mem.2)

/-- `FAIL:` is kept under the field of the line before it, and excuses every failure that has
    this field. -/
theorem not_excusesExactly : ¬ ExcusesExactly
    (allowlist ["FAIL: a.c -O0".toList, "FAIL:".toList]) ["gcc/common.log".toList]
    "FAIL: a.c -O3".toList := by
  intro ⟨whiteList, hlists, hexact⟩
  obtain ⟨whiteList', hlists', hignored⟩ := ignored_iff_of_first
    (allowlist_reads ["FAIL: a.c -O0".toList, "FAIL:".toList]) (by decide)
    (show fieldKey "FAIL: a.c -O3".toList = some "a.c".toList by decide)
  obtain rfl : whiteList = whiteList' := Except.ok.inj (hlists.symm.trans hlists')
  have hstale : Stale "a.c".toList ["FAIL: a.c -O0".toList, "FAIL:".toList] "FAIL:".toList :=
    ⟨[], _, _, rfl, by decide, by decide, [], [], rfl, by simp⟩
  obtain ⟨l, hl, hex⟩ := hexact.mp (hignored.mpr (Or.inr ⟨"FAIL:".toList, hstale, by decide⟩))
  have hno : ∀ l ∈ strippedLines (allowlist ["FAIL: a.c -O0".toList, "FAIL:".toList])
      ["gcc/common.log".toList], (fieldKey l).isSome → ¬ l <+: "FAIL: a.c -O3".toList := by decide
  exact hno l hl hex.fields hex.isPrefix

end Testsuite
