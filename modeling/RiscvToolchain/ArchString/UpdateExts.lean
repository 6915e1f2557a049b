import RiscvToolchain.Python.Substitute
import RiscvToolchain.Python.TextFile

/- `scripts/update-ext-cpu-opt`: the list of QEMU's extensions in `march-to-cpu-opt`,
   generated from QEMU's `cpu.c` and put in the place of the list that is there.

   Correspondence (Python ↔ Lean):
     `\w`                        ↔ `WordChars`: any set of characters that has the
                                   letters, digits and `_` of ASCII and no other of ASCII
     `\s`                        ↔ `isspace`
     `parse_qemu_cpu_c`          ↔ `parseQemuCpuC`, of the text as it is read
     `sorted(set(...))`          ↔ `sortedSet`
     `generate_ext_set`          ↔ `generateExtSet`
     the pattern of the block    ↔ `blockPattern`, between `blockHead` and `blockTail`
     `update_march_to_cpu_opt`   ↔ `updateMarchToCpuOpt`
   Both files are read in text mode: a line end of two characters, or one that is a
   carriage return, is one newline in the text, and a newline is what is written. The
   block that is generated has the shape that is looked for, whatever the names, as none
   of their characters is special in the list, in the expression or in the replacement. -/
namespace ArchString
open Python

structure WordChars where
  isWord : Char → Bool
  ascii : ∀ c, c.toNat < 128 → isWord c = (c.isAlphanum || c == '_')

/-! The program. -/

/-- `+` of a character class. -/
def plus (p : Char → Bool) : Re := .seq (.cls p) (.star p)

/-- `ISA_EXT_DATA_ENTRY\((\w+),\s*\w+,\s*(\w+)\)` -/
def isaExtPattern (w : WordChars) : Re :=
  .seq (Re.lit "ISA_EXT_DATA_ENTRY(".toList)
    (.seq (.group 1 (plus w.isWord))
      (.seq (Re.lit ",".toList) (.seq (.star isspace) (.seq (plus w.isWord)
        (.seq (Re.lit ",".toList) (.seq (.star isspace)
          (.seq (.group 2 (plus w.isWord)) (Re.lit ")".toList))))))))

/-- `MISA_EXT_INFO\(\w+,\s*"(\w+)"` -/
def misaExtPattern (w : WordChars) : Re :=
  .seq (Re.lit "MISA_EXT_INFO(".toList)
    (.seq (plus w.isWord) (.seq (Re.lit ",".toList) (.seq (.star isspace)
      (.seq (Re.lit "\"".toList) (.seq (.group 1 (plus w.isWord)) (Re.lit "\"".toList))))))

/-- A group of a match that has it. -/
def groupOf (k : Nat) (pt : Re.Point) : Str := (pt.groups.get k).getD []

def misaSkip : List Str := ["i", "e", "g", "s", "u", "h"].map String.toList

/-- `sorted(set(l))`. -/
def sortedSet (l : List Str) : List Str := l.dedup.mergeSort strLe

def parseQemuCpuC (w : WordChars) (content : Str) : List Str :=
  let isaExtMatches := Re.findIter (isaExtPattern w) content
  let fromIsa := (isaExtMatches.map fun pt => (groupOf 1 pt, groupOf 2 pt)).filterMap
    fun (extName, prop) =>
      if startsWith "_".toList extName then none
      else if startsWith "has_priv_".toList prop then none
      else if startsWith "s".toList extName then none
      else some extName
  let misaExtMatches := Re.findIter (misaExtPattern w) content
  let fromMisa := (misaExtMatches.map (groupOf 1)).filter (· ∉ misaSkip)
  sortedSet (fromIsa ++ fromMisa)

def headerLines : List Str :=
  ["# QEMU supported extensions list",
    "# This list is auto-generated by scripts/update-ext-cpu-opt from QEMU source",
    "# Only includes extensions with explicit on/off switches",
    "# Excludes: has_priv_* (no switch), s* (supervisor extensions)",
    "# fmt: off",
    "QEMU_SUPPORTED_EXTS = \x7b"].map String.toList

def entryLine (ext : Str) : Str := "    \"".toList ++ ext ++ "\",".toList

def generateExtSet (extensions : List Str) : Str :=
  join ['\n'] (headerLines ++ extensions.map entryLine ++
    ["\x7d".toList, "# fmt: on".toList])

/-- The expression of the block: its lines, with what is between the braces free of the
    closing one. -/
def blockHead : Str := join ['\n'] headerLines

def blockTail : Str := "\x7d\n# fmt: on".toList

def notBrace (c : Char) : Bool := c != '\x7d'

def blockPattern : Re := .seq (Re.lit blockHead) (.seq (.star notBrace) (Re.lit blockTail))

/-- Whether a block was found, and the files after; `none` is an exception. -/
def updateMarchToCpuOpt (fs : FS) (marchScriptPath newExtSet : Str) : Option (Bool × FS) :=
  match fs marchScriptPath with
  | some (.text raw) =>
    let content := universalNewlines raw
    if Re.findIter blockPattern content = [] then some (false, fs)
    else do
      let newContent ← Re.pySub blockPattern newExtSet content
      return (true, Function.update fs marchScriptPath (some (.text newContent)))
  | _ => none

/-! The block. -/

/-- A block of the shape that is looked for, and what follows it. -/
structure BlockAt (s m rest : Str) : Prop where
  eq : s = blockHead ++ (m ++ (blockTail ++ rest))
  noBrace : '\x7d' ∉ m

theorem notBrace_iff {m : Str} : (∀ c ∈ m, notBrace c = true) ↔ '\x7d' ∉ m := by
  simp only [notBrace, bne_iff_ne, ne_eq]
  constructor
  · intro h hmem
    exact h _ hmem rfl
  · intro h c hc heq
    exact h (heq ▸ hc)

theorem blockAt_of_run {s : Str} {pt : Re.Point}
    (h : pt ∈ Re.run blockPattern ⟨[], s, Dict.empty⟩) :
    ∃ m, BlockAt s m pt.rest ∧ pt = ⟨blockHead ++ (m ++ blockTail), pt.rest, Dict.empty⟩ := by
  obtain ⟨p₁, h₁, h⟩ := Re.mem_run_seq h
  obtain ⟨p₂, h₂, h₃⟩ := Re.mem_run_seq h
  obtain ⟨hhead, hg₁⟩ := Re.mem_run_lit h₁
  obtain ⟨m, hm, hpass, hg₂⟩ := Re.mem_run_star h₂
  obtain ⟨htail, hg₃⟩ := Re.mem_run_lit h₃
  have hall := hhead.trans (hpass.trans htail)
  refine ⟨m, ⟨by rw [show s = _ from hall.1]; simp, notBrace_iff.mp hm⟩, ?_⟩
  obtain ⟨b, rest, g⟩ := pt
  have hb : b = blockHead ++ (m ++ blockTail) := hall.2
  have hg : g = Dict.empty := hg₃.trans (hg₂.trans hg₁)
  rw [hb, hg]

theorem blockTail_eq : blockTail = '\x7d' :: "\n# fmt: on".toList := rfl

/-- A text is cut at the first of a character in one way. -/
theorem cut_unique {c : Char} {a b a' b' : Str} (h : a ++ c :: b = a' ++ c :: b') (ha : c ∉ a)
    (ha' : c ∉ a') : a = a' ∧ b = b' := by
  have hsplit := congrArg (split c) h
  rw [split_append ha, split_append ha'] at hsplit
  obtain rfl := (List.cons.inj hsplit).1
  exact ⟨rfl, (List.cons.inj (List.append_cancel_left h)).2⟩

/-- A text has one block at its start at most. -/
theorem BlockAt.unique {s m rest m' rest' : Str} (h : BlockAt s m rest) (h' : BlockAt s m' rest') :
    m = m' ∧ rest = rest' := by
  have heq := List.append_cancel_left (h.eq.symm.trans h'.eq)
  rw [blockTail_eq, List.cons_append, List.cons_append] at heq
  obtain ⟨hm, hrest⟩ := cut_unique heq h.noBrace h'.noBrace
  exact ⟨hm, List.append_cancel_left hrest⟩

theorem matchHere_of_blockAt {s m rest : Str} (h : BlockAt s m rest) :
    Re.matchHere blockPattern s = some ⟨blockHead ++ (m ++ blockTail), rest, Dict.empty⟩ := by
  have hmem : (⟨(blockHead ++ m) ++ blockTail, rest, Dict.empty⟩ : Re.Point) ∈
      Re.run blockPattern ⟨[], s, Dict.empty⟩ := by
    rw [h.eq]
    exact Re.mem_run_seq_of (Re.mem_run_lit_append blockHead [] _ _)
      (Re.mem_run_seq_of (Re.mem_run_star_append (notBrace_iff.mpr h.noBrace) _ _ _)
        (Re.mem_run_lit_append blockTail _ _ _))
  rw [Re.matchHere]
  cases hrun : (Re.run blockPattern ⟨[], s, Dict.empty⟩).head? with
  | none =>
    rw [List.head?_eq_none_iff] at hrun
    rw [hrun] at hmem
    cases hmem
  | some pt =>
    obtain ⟨m', hblock, hpt⟩ := blockAt_of_run (List.mem_of_mem_head? hrun)
    obtain ⟨rfl, hrest⟩ := hblock.unique h
    rw [hpt, hrest]

theorem matchHere_block {s : Str} {pt : Re.Point} (h : Re.matchHere blockPattern s = some pt) :
    ∃ m, BlockAt s m pt.rest ∧ pt = ⟨blockHead ++ (m ++ blockTail), pt.rest, Dict.empty⟩ :=
  blockAt_of_run (List.mem_of_mem_head? h)

theorem matchHere_ne_nil {s : Str} {pt : Re.Point} (h : Re.matchHere blockPattern s = some pt) :
    pt.before ≠ [] := by
  obtain ⟨m, -, hpt⟩ := matchHere_block h
  rw [hpt]
  simp [blockTail_eq]

/-- The head has none of the characters that are looked for in what follows it. -/
theorem blockHead_plain : ∀ c ∈ blockHead, c ≠ '\x7d' ∧ c ≠ '\\' ∧ c ≠ '\r' ∧ c ≠ '"' := by
  have hall : blockHead.all (fun c => c != '\x7d' && (c != '\\' && (c != '\r' && c != '"'))) := by
    decide +kernel
  intro c hc
  simpa using List.all_eq_true.mp hall c hc

theorem not_mem_blockHead : '\x7d' ∉ blockHead := fun h => (blockHead_plain _ h).1 rfl

theorem length_blockTail_le : blockTail.length ≤ blockHead.length := by decide +kernel

/-- A head after a closing brace lies after it as a whole. -/
theorem length_head_le {p u v : Str} (h : p ++ blockHead = u ++ '\x7d' :: v) :
    blockHead.length ≤ v.length := by
  rw [List.append_cons] at h
  rcases List.append_eq_append_iff.mp h with ⟨t, hu, hv⟩ | ⟨t, hp, hv⟩
  · rcases List.eq_nil_or_concat t with ht | ⟨t', c, ht⟩
    · rw [hv, ht, List.nil_append]
    · -- the brace would be the last character of a part of the head
      rw [ht, List.concat_eq_append, ← List.append_assoc] at hu
      have hc := (List.append_inj' hu rfl).2
      have hmem : '\x7d' ∈ blockHead := by
        rw [hv, ht, List.concat_eq_append, ← hc]
        simp
      exact absurd hmem not_mem_blockHead
  · rw [hv, List.length_append]
    omega

/-- What stands between the braces of a later block does not matter to whether a block starts
    at an earlier place. -/
theorem BlockAt.transfer {p m m' post n rest : Str}
    (h : BlockAt (p ++ (blockHead ++ (m' ++ (blockTail ++ post)))) n rest) (hm : '\x7d' ∉ m) :
    ∃ n' rest', BlockAt (p ++ (blockHead ++ (m ++ (blockTail ++ post)))) n' rest' := by
  obtain ⟨v, hv⟩ : ∃ v, p ++ blockHead = blockHead ++ v := by
    have hpre : blockHead <+: (p ++ blockHead) ++ (m' ++ (blockTail ++ post)) := by
      rw [List.append_assoc, h.eq]
      exact List.prefix_append _ _
    obtain ⟨v, hv⟩ := List.prefix_of_prefix_length_le hpre (List.prefix_append _ _) (by simp)
    exact ⟨v, hv.symm⟩
  have hafter : n ++ (blockTail ++ rest) = v ++ (m' ++ (blockTail ++ post)) := by
    have heq := h.eq
    rw [← List.append_assoc, hv, List.append_assoc] at heq
    exact (List.append_cancel_left heq).symm
  have hold : p ++ (blockHead ++ (m ++ (blockTail ++ post))) =
      blockHead ++ (v ++ (m ++ (blockTail ++ post))) := by
    rw [← List.append_assoc, hv, List.append_assoc]
  by_cases hbrace : '\x7d' ∈ v
  · -- the block ends before the braces of the later one open
    obtain ⟨v₁, v₂, hcut, hv₁⟩ := List.eq_append_cons_of_mem hbrace
    rw [hcut, blockTail_eq, List.cons_append, List.append_assoc, List.cons_append] at hafter
    obtain ⟨hn, htail⟩ := cut_unique hafter h.noBrace hv₁
    have hlen : blockHead.length ≤ v₂.length := by
      apply length_head_le (p := p) (u := blockHead ++ v₁)
      rw [hv, hcut, List.append_assoc]
    have htail_le := length_blockTail_le
    rw [blockTail_eq, List.length_cons] at htail_le
    obtain ⟨u, hu⟩ : "\n# fmt: on".toList <+: v₂ :=
      List.prefix_of_prefix_length_le (htail ▸ List.prefix_append _ _) (List.prefix_append _ _)
        (by omega)
    refine ⟨v₁, u ++ (m ++ (blockTail ++ post)), ?_, hv₁⟩
    rw [hold, hcut, ← hu, blockTail_eq]
    simp
  · -- it goes up to the end of the later one
    refine ⟨v ++ m, post, by rw [hold]; simp, ?_⟩
    rw [List.mem_append, not_or]
    exact ⟨hbrace, hm⟩

/-! A script with one block. -/

/-- A block with `m` between its braces. -/
def blockOf (m : Str) : Str := blockHead ++ (m ++ blockTail)

theorem blockOf_append (m rest : Str) :
    blockOf m ++ rest = blockHead ++ (m ++ (blockTail ++ rest)) := by
  simp [blockOf]

theorem matchHere_blockOf {m : Str} (hm : '\x7d' ∉ m) (rest : Str) :
    Re.matchHere blockPattern (blockOf m ++ rest) = some ⟨blockOf m, rest, Dict.empty⟩ :=
  matchHere_of_blockAt ⟨blockOf_append m rest, hm⟩

theorem blockOf_ne_nil (m : Str) : blockOf m ≠ [] := by
  rw [blockOf, blockTail_eq]
  simp

/-- No block starts before the one that is found, whatever is put between its braces. -/
theorem NoMatchIn.blockOf {pre m m' post : Str}
    (h : Re.NoMatchIn blockPattern pre (blockOf m ++ post)) (hm : '\x7d' ∉ m) :
    Re.NoMatchIn blockPattern pre (ArchString.blockOf m' ++ post) := by
  intro x c y hx
  cases hnew : Re.matchHere blockPattern (c :: (y ++ (ArchString.blockOf m' ++ post))) with
  | none => rfl
  | some pt =>
    obtain ⟨n, hblock, -⟩ := matchHere_block hnew
    rw [← List.cons_append, blockOf_append] at hblock
    obtain ⟨n', rest', hold⟩ := hblock.transfer hm
    rw [← blockOf_append, List.cons_append] at hold
    have hnone := h x c y hx
    rw [matchHere_of_blockAt hold] at hnone
    cases hnone

/-- A script that is read with one block, taken apart at it. -/
structure OneBlock (content pre m post : Str) : Prop where
  eq : content = pre ++ (blockOf m ++ post)
  noBrace : '\x7d' ∉ m
  noneBefore : Re.NoMatchIn blockPattern pre (blockOf m ++ post)
  noneAfter : Re.findFrom blockPattern 0 post = []

theorem oneBlock_of_find {content : Str} {pt : Re.Point}
    (h : Re.findIter blockPattern content = [pt]) :
    ∃ pre m, OneBlock content pre m pt.rest ∧ pt = ⟨blockOf m, pt.rest, Dict.empty⟩ := by
  obtain ⟨pre, hs, hno, hmatch, hrest⟩ := Re.findFrom_cons h (fun _ _ => matchHere_ne_nil)
  obtain ⟨m, hblock, hpt⟩ := matchHere_block hmatch
  have hbefore : pt.before = blockOf m := by rw [hpt, blockOf]
  rw [hbefore] at hs hno
  exact ⟨pre, m, ⟨hs, hblock.noBrace, hno, hrest⟩, hpt⟩

section OneBlock
variable {content pre m post : Str}

theorem OneBlock.find (h : OneBlock content pre m post) :
    Re.findIter blockPattern content = [⟨blockOf m, post, Dict.empty⟩] := by
  rw [Re.findIter, h.eq, Re.findFrom_pass h.noneBefore,
    Re.findFrom_match (matchHere_blockOf h.noBrace post) (blockOf_ne_nil m), h.noneAfter]

theorem OneBlock.replace (h : OneBlock content pre m post) {m' : Str} (hm' : '\x7d' ∉ m') :
    OneBlock (pre ++ (blockOf m' ++ post)) pre m' post :=
  ⟨rfl, hm', NoMatchIn.blockOf h.noneBefore h.noBrace, h.noneAfter⟩

theorem OneBlock.sub (h : OneBlock content pre m post) {template : Str} (ht : '\\' ∉ template) :
    Re.pySub blockPattern template content = some (pre ++ (template ++ post)) := by
  have hsub : ∀ s : Str, Re.subFrom blockPattern
      (fun pt => (Re.expandTemplate pt.before template).getD []) 0 s =
      Re.subFrom blockPattern (fun _ => template) 0 s := by
    intro s
    simp only [Re.expandTemplate_of_not_mem _ ht, Option.getD_some]
  rw [Re.pySub, Re.expandTemplate_of_not_mem _ ht, if_pos Option.isSome_some, hsub, h.eq,
    Re.subFrom_pass h.noneBefore,
    Re.subFrom_match (matchHere_blockOf h.noBrace post) (blockOf_ne_nil m),
    Re.subFrom_of_find_nil h.noneAfter]

/-- One update of a script with one block. -/
theorem OneBlock.update {fs : FS} {path raw : Str} (hraw : fs path = some (.text raw))
    (h : OneBlock (universalNewlines raw) pre m post) {template : Str} (ht : '\\' ∉ template) :
    updateMarchToCpuOpt fs path template =
      some (true, Function.update fs path (some (.text (pre ++ (template ++ post))))) := by
  rw [updateMarchToCpuOpt, hraw]
  show (if _ then _ else _) = _
  rw [if_neg (by rw [h.find]; simp), h.sub ht]
  rfl

end OneBlock

/-! The generated block. -/

theorem join_newline (l : Str) (ls : List Str) :
    join ['\n'] (l :: ls) = l ++ ls.flatMap ('\n' :: ·) := by
  induction ls generalizing l with
  | nil => simp
  | cons k ls ih =>
    rw [join_cons_cons, ih, List.flatMap_cons]
    rfl

/-- What stands between the braces. -/
def listing (extensions : List Str) : Str :=
  (extensions.map entryLine).flatMap ('\n' :: ·) ++ ['\n']

theorem generateExtSet_eq (extensions : List Str) :
    generateExtSet extensions = blockOf (listing extensions) := by
  have hhead : headerLines = "# QEMU supported extensions list".toList :: headerLines.tail := rfl
  rw [generateExtSet, hhead, List.cons_append, List.cons_append, join_newline, blockOf, blockHead,
    hhead, join_newline, listing, blockTail_eq]
  simp only [List.flatMap_append, List.flatMap_cons, List.flatMap_nil, List.append_assoc,
    List.append_nil]
  rfl

/-- A name as `\w+` matches it. -/
def IsName (w : WordChars) (s : Str) : Prop := ∀ c ∈ s, w.isWord c = true

theorem WordChars.not_mem {w : WordChars} {s : Str} (h : IsName w s) {c : Char}
    (hc : c.toNat < 128) (hno : (c.isAlphanum || c == '_') = false) : c ∉ s := by
  intro hmem
  have hword := h c hmem
  rw [w.ascii c hc, hno] at hword
  cases hword

theorem mem_entry {e : Str} {c : Char} (h : c ∈ '\n' :: entryLine e) :
    c ∈ e ∨ c ∈ "\n    \"\",".toList := by
  rw [List.mem_cons, entryLine, List.mem_append, List.mem_append] at h
  rcases h with rfl | (h | h) | h
  · exact Or.inr (by decide)
  · exact Or.inr (List.mem_cons_of_mem _ (List.mem_append_left "\",".toList h))
  · exact Or.inl h
  · exact Or.inr (List.mem_append_right "\n    \"".toList h)

/-- A character that no line of the list has of itself. -/
theorem not_mem_listing {w : WordChars} {extensions : List Str} (h : ∀ e ∈ extensions, IsName w e)
    {c : Char} (hc : c.toNat < 128) (hno : (c.isAlphanum || c == '_') = false)
    (hlist : c ∉ "\n    \"\",".toList) : c ∉ listing extensions := by
  intro hmem
  rw [listing, List.mem_append] at hmem
  rcases hmem with hmem | hmem
  · obtain ⟨l, hl, hcl⟩ := List.mem_flatMap.mp hmem
    obtain ⟨e, he, rfl⟩ := List.mem_map.mp hl
    rcases mem_entry hcl with hce | hce
    · exact WordChars.not_mem (h e he) hc hno hce
    · exact hlist hce
  · obtain rfl := List.mem_singleton.mp hmem
    exact hlist (by decide)

theorem not_mem_generateExtSet {w : WordChars} {extensions : List Str}
    (h : ∀ e ∈ extensions, IsName w e) {c : Char} (hc : c.toNat < 128)
    (hno : (c.isAlphanum || c == '_') = false) (hlist : c ∉ "\n    \"\",".toList)
    (hhead : c ∉ blockHead) (htail : c ∉ blockTail) : c ∉ generateExtSet extensions := by
  rw [generateExtSet_eq, blockOf, List.mem_append, List.mem_append, not_or, not_or]
  exact ⟨hhead, not_mem_listing h hc hno hlist, htail⟩

theorem not_mem_generateExtSet_slash {w : WordChars} {extensions : List Str}
    (h : ∀ e ∈ extensions, IsName w e) : '\\' ∉ generateExtSet extensions :=
  not_mem_generateExtSet h (by decide) (by decide) (by decide)
    (fun hc => (blockHead_plain _ hc).2.1 rfl) (by decide)

theorem not_mem_generateExtSet_cr {w : WordChars} {extensions : List Str}
    (h : ∀ e ∈ extensions, IsName w e) : '\r' ∉ generateExtSet extensions :=
  not_mem_generateExtSet h (by decide) (by decide) (by decide)
    (fun hc => (blockHead_plain _ hc).2.2.1 rfl) (by decide)

/-! The strings of the list. -/

def everyOther : List Str → List Str
  | _ :: x :: l => x :: everyOther l
  | _ => []

/-- The string literals of a text: what stands between its double quotes, pair by pair. -/
def stringLiterals (s : Str) : List Str := everyOther (split '"' s)

theorem stringLiterals_cons {a x : Str} (ha : '"' ∉ a) (hx : '"' ∉ x) (b : Str) :
    stringLiterals (a ++ '"' :: (x ++ '"' :: b)) = x :: stringLiterals b := by
  rw [stringLiterals, split_append ha, split_append hx, everyOther, stringLiterals]

theorem stringLiterals_nil {a : Str} (ha : '"' ∉ a) : stringLiterals a = [] := by
  rw [stringLiterals, split_of_not_mem ha]
  rfl

theorem stringLiterals_listing {extensions : List Str} (h : ∀ e ∈ extensions, '"' ∉ e)
    {a b : Str} (ha : '"' ∉ a) (hb : '"' ∉ b) :
    stringLiterals (a ++ (listing extensions ++ b)) = extensions := by
  induction extensions generalizing a with
  | nil =>
    apply stringLiterals_nil
    rw [List.mem_append, not_or]
    refine ⟨ha, ?_⟩
    rw [listing, List.map_nil, List.flatMap_nil, List.nil_append, List.singleton_append,
      List.mem_cons, not_or]
    exact ⟨by decide, hb⟩
  | cons e extensions ih =>
    have hcut : a ++ (listing (e :: extensions) ++ b) =
        (a ++ "\n    ".toList) ++ '"' :: (e ++ '"' :: (",".toList ++ (listing extensions ++ b))) := by
      simp [listing, entryLine]
    have ha' : '"' ∉ a ++ "\n    ".toList := by
      rw [List.mem_append, not_or]
      exact ⟨ha, by decide⟩
    rw [hcut, stringLiterals_cons ha' (h e (by simp)),
      ih (fun x hx => h x (by simp [hx])) (by decide)]

/-! The names that are found. -/

theorem mem_run_plus {p : Char → Bool} {pt pt' : Re.Point} (h : pt' ∈ Re.run (plus p) pt) :
    ∃ m, (∀ c ∈ m, p c = true) ∧ Re.Passed pt pt' m ∧ pt'.groups = pt.groups := by
  obtain ⟨mid, h₁, h₂⟩ := Re.mem_run_seq h
  obtain ⟨c, hc, hpass, hg⟩ := Re.mem_run_cls h₁
  obtain ⟨m, hm, hpass', hg'⟩ := Re.mem_run_star h₂
  refine ⟨[c] ++ m, ?_, hpass.trans hpass', hg'.trans hg⟩
  intro x hx
  rcases List.mem_append.mp hx with hx | hx
  · obtain rfl := List.mem_singleton.mp hx
    exact hc
  · exact hm x hx

theorem mem_run_group_plus {k : Nat} {p : Char → Bool} {pt pt' : Re.Point}
    (h : pt' ∈ Re.run (.group k (plus p)) pt) :
    ∃ m, (∀ c ∈ m, p c = true) ∧ pt'.groups = pt.groups.set k m := by
  obtain ⟨q, hq, hgroup⟩ := Re.mem_run_group h
  obtain ⟨m, hm, hpass, hg⟩ := mem_run_plus hq
  exact ⟨m, hm, by rw [(hgroup m hpass).2, hg]⟩

theorem isName_isaExt {w : WordChars} {s : Str} {pt : Re.Point}
    (h : Re.matchHere (isaExtPattern w) s = some pt) : IsName w (groupOf 1 pt) := by
  have h := List.mem_of_mem_head? h
  obtain ⟨p₁, h₁, h⟩ := Re.mem_run_seq h
  obtain ⟨p₂, h₂, h⟩ := Re.mem_run_seq h
  obtain ⟨p₃, h₃, h⟩ := Re.mem_run_seq h
  obtain ⟨p₄, h₄, h⟩ := Re.mem_run_seq h
  obtain ⟨p₅, h₅, h⟩ := Re.mem_run_seq h
  obtain ⟨p₆, h₆, h⟩ := Re.mem_run_seq h
  obtain ⟨p₇, h₇, h⟩ := Re.mem_run_seq h
  obtain ⟨p₈, h₈, h₉⟩ := Re.mem_run_seq h
  obtain ⟨m, hm, hg₂⟩ := mem_run_group_plus h₂
  obtain ⟨-, hg₃⟩ := Re.mem_run_lit h₃
  obtain ⟨-, -, -, hg₄⟩ := Re.mem_run_star h₄
  obtain ⟨-, -, -, hg₅⟩ := mem_run_plus h₅
  obtain ⟨-, hg₆⟩ := Re.mem_run_lit h₆
  obtain ⟨-, -, -, hg₇⟩ := Re.mem_run_star h₇
  obtain ⟨m', -, hg₈⟩ := mem_run_group_plus h₈
  obtain ⟨-, hg₉⟩ := Re.mem_run_lit h₉
  have hget : pt.groups.get 1 = some m := by
    rw [hg₉, hg₈, hg₇, hg₆, hg₅, hg₄, hg₃, hg₂, Dict.get_set, if_neg (by decide), Dict.get_set,
      if_pos rfl]
  rw [groupOf, hget]
  exact hm

theorem isName_misaExt {w : WordChars} {s : Str} {pt : Re.Point}
    (h : Re.matchHere (misaExtPattern w) s = some pt) : IsName w (groupOf 1 pt) := by
  have h := List.mem_of_mem_head? h
  obtain ⟨p₁, h₁, h⟩ := Re.mem_run_seq h
  obtain ⟨p₂, h₂, h⟩ := Re.mem_run_seq h
  obtain ⟨p₃, h₃, h⟩ := Re.mem_run_seq h
  obtain ⟨p₄, h₄, h⟩ := Re.mem_run_seq h
  obtain ⟨p₅, h₅, h⟩ := Re.mem_run_seq h
  obtain ⟨p₆, h₆, h₇⟩ := Re.mem_run_seq h
  obtain ⟨m, hm, hg₆⟩ := mem_run_group_plus h₆
  obtain ⟨-, hg₇⟩ := Re.mem_run_lit h₇
  have hget : pt.groups.get 1 = some m := by rw [hg₇, hg₆, Dict.get_set, if_pos rfl]
  rw [groupOf, hget]
  exact hm

theorem mem_sortedSet {l : List Str} {s : Str} : s ∈ sortedSet l ↔ s ∈ l := by
  rw [sortedSet, List.mem_mergeSort, List.mem_dedup]

theorem isName_of_mem_parse {w : WordChars} {content e : Str} (h : e ∈ parseQemuCpuC w content) :
    IsName w e := by
  rw [parseQemuCpuC, mem_sortedSet, List.mem_append] at h
  rcases h with h | h
  · obtain ⟨⟨extName, prop⟩, hpair, hsome⟩ := List.mem_filterMap.mp h
    obtain ⟨pt, hpt, heq⟩ := List.mem_map.mp hpair
    obtain ⟨t, ht⟩ := Re.mem_findFrom hpt
    have hname := isName_isaExt ht
    rw [(Prod.mk.inj heq).1] at hname
    simp only [Option.ite_none_left_eq_some, Option.some.injEq] at hsome
    rw [← hsome.2.2.2]
    exact hname
  · obtain ⟨pt, hpt, rfl⟩ := List.mem_map.mp (List.mem_of_mem_filter h)
    obtain ⟨t, ht⟩ := Re.mem_findFrom hpt
    exact isName_misaExt ht

/-- The list is sorted, and no name is in it twice. -/
theorem sortedSet_sorted (l : List Str) :
    (sortedSet l).Pairwise (strLe · · = true) ∧ (sortedSet l).Nodup :=
  ⟨List.pairwise_mergeSort strLe_trans strLe_total _,
    (List.mergeSort_perm _ _).nodup_iff.mpr (List.nodup_dedup l)⟩

/-! Updates. -/

/-- What an update with the extensions of a `cpu.c` does to a script that is read with the one
    match `pt`. -/
structure UpdatesOnlyBlock (w : WordChars) (fs : FS) (path content cpuC : Str) (pt : Re.Point)
    (before new : Str) (fs' : FS) : Prop where
  content_eq : content = before ++ (pt.before ++ pt.rest)
  new_eq : new = before ++ (generateExtSet (parseQemuCpuC w cpuC) ++ pt.rest)
  update : updateMarchToCpuOpt fs path (generateExtSet (parseQemuCpuC w cpuC)) = some (true, fs')
  written : fs' = Function.update fs path (some (.text new))
  oneMatch : Re.findIter blockPattern new =
    [⟨generateExtSet (parseQemuCpuC w cpuC), pt.rest, Dict.empty⟩]
  listed : stringLiterals (generateExtSet (parseQemuCpuC w cpuC)) = parseQemuCpuC w cpuC
  sorted : (parseQemuCpuC w cpuC).Pairwise (strLe · · = true) ∧ (parseQemuCpuC w cpuC).Nodup
  idempotent : updateMarchToCpuOpt fs' path (generateExtSet (parseQemuCpuC w cpuC)) =
    some (true, fs')

theorem update_of_find_nil {fs : FS} {path raw : Str} (hraw : fs path = some (.text raw))
    (h : Re.findIter blockPattern (universalNewlines raw) = []) (template : Str) :
    updateMarchToCpuOpt fs path template = some (false, fs) := by
  rw [updateMarchToCpuOpt, hraw]
  exact if_pos h

/-- For every script and every `cpu.c` as they are read: with no block the file stays as it is,
    and with one block the list in it is replaced and nothing else. -/
theorem updateMarchToCpuOpt_spec (w : WordChars) (fs : FS) (path raw cpuC : Str)
    (hraw : fs path = some (.text raw)) :
    (Re.findIter blockPattern (universalNewlines raw) = [] →
      updateMarchToCpuOpt fs path (generateExtSet (parseQemuCpuC w cpuC)) = some (false, fs)) ∧
    ∀ pt, Re.findIter blockPattern (universalNewlines raw) = [pt] → ∃ before new fs',
      UpdatesOnlyBlock w fs path (universalNewlines raw) cpuC pt before new fs' := by
  refine ⟨fun h => update_of_find_nil hraw h _, ?_⟩
  intro pt hpt
  obtain ⟨before, m, hone, hpt⟩ := oneBlock_of_find hpt
  have hnames : ∀ e ∈ parseQemuCpuC w cpuC, IsName w e := fun e he => isName_of_mem_parse he
  generalize hexts : parseQemuCpuC w cpuC = exts at hnames
  have hslash := not_mem_generateExtSet_slash hnames
  have hcr := not_mem_generateExtSet_cr hnames
  have hbrace : '\x7d' ∉ listing exts := not_mem_listing hnames (by decide) (by decide) (by decide)
  have hquote : ∀ e ∈ exts, '"' ∉ e :=
    fun e he => WordChars.not_mem (hnames e he) (by decide) (by decide)
  have hupdate := hone.update hraw hslash
  have hnew := hone.replace hbrace
  rw [← generateExtSet_eq] at hnew
  -- what is written has no carriage return, so it is read back as it is
  have hread : universalNewlines (before ++ (generateExtSet exts ++ pt.rest)) =
      before ++ (generateExtSet exts ++ pt.rest) := by
    apply universalNewlines_eq_self
    have hcontent := not_mem_universalNewlines raw
    rw [hone.eq, List.mem_append, List.mem_append, not_or, not_or] at hcontent
    rw [List.mem_append, List.mem_append, not_or, not_or]
    exact ⟨hcontent.1, hcr, hcontent.2.2⟩
  refine ⟨before, before ++ (generateExtSet exts ++ pt.rest), Function.update fs path
    (some (.text (before ++ (generateExtSet exts ++ pt.rest)))), ?_⟩
  constructor
  · rw [hone.eq, hpt]
  · rw [hexts]
  · rw [hexts]
    exact hupdate
  · rfl
  · rw [hexts, hnew.find, generateExtSet_eq]
  · rw [hexts, generateExtSet_eq, blockOf]
    exact stringLiterals_listing hquote (fun hc => (blockHead_plain _ hc).2.2.2 rfl) (by decide)
  · exact sortedSet_sorted _
  · rw [hexts]
    have hraw' : Function.update fs path
        (some (Node.text (before ++ (generateExtSet exts ++ pt.rest)))) path =
        some (.text (before ++ (generateExtSet exts ++ pt.rest))) := Function.update_self ..
    have hagain := OneBlock.update hraw' (by rw [hread]; exact hnew) hslash
    rw [hagain, Function.update_idem]

/-! Two scripts. -/

def asciiWord : WordChars where
  isWord c := decide (c.toNat < 128) && (c.isAlphanum || c == '_')
  ascii c hc := by rw [decide_eq_true hc, Bool.true_and]

theorem noMatchIn_of_not_mem {a b : Str} (h : '#' ∉ a) : Re.NoMatchIn blockPattern a b := by
  intro x c y ha
  have hc : c ≠ '#' := by
    intro hc
    apply h
    rw [ha, hc]
    simp
  cases hm : Re.matchHere blockPattern (c :: (y ++ b)) with
  | none => rfl
  | some pt =>
    obtain ⟨m, hblock, -⟩ := matchHere_block hm
    exact absurd (List.cons.inj hblock.eq).1 hc

/-- A block with no extension in it, between two texts without a `#`. -/
theorem oneBlock_empty (pre post : Str) (hpre : '#' ∉ pre) (hpost : '#' ∉ post) :
    OneBlock (pre ++ (generateExtSet [] ++ post)) pre (listing []) post := by
  refine ⟨by rw [generateExtSet_eq], by decide, noMatchIn_of_not_mem hpre, ?_⟩
  have hpass := Re.findFrom_pass (noMatchIn_of_not_mem (b := []) hpost)
  rw [List.append_nil] at hpass
  rw [hpass, Re.findFrom]

theorem generateExtSet_nil_noCr : '\r' ∉ generateExtSet [] :=
  @not_mem_generateExtSet_cr asciiWord [] (fun _ he => absurd he List.not_mem_nil)

/-- The script that is a block and a newline. -/
def shortScript : FS := FS.ofList [("opt".toList, generateExtSet [] ++ "\n".toList)]

theorem shortScript_find : Re.findIter blockPattern
    (universalNewlines (generateExtSet [] ++ "\n".toList)) =
      [⟨generateExtSet [], "\n".toList, Dict.empty⟩] := by
  have hone : OneBlock (generateExtSet [] ++ "\n".toList) [] (listing []) "\n".toList :=
    oneBlock_empty [] "\n".toList (by decide) (by decide)
  rw [universalNewlines_eq_self]
  · rw [hone.find, generateExtSet_eq]
  · rw [List.mem_append, not_or]
    exact ⟨generateExtSet_nil_noCr, by decide⟩

theorem updateMarchToCpuOpt_shortScript :
    shortScript "opt".toList = some (.text (generateExtSet [] ++ "\n".toList)) ∧
    ∃ before new fs', UpdatesOnlyBlock asciiWord shortScript "opt".toList
      (universalNewlines (generateExtSet [] ++ "\n".toList))
      "MISA_EXT_INFO(RVA, \"a\", \"Atomic instructions\")".toList
      ⟨generateExtSet [], "\n".toList, Dict.empty⟩ before new fs' :=
  ⟨rfl, (updateMarchToCpuOpt_spec asciiWord shortScript "opt".toList
    (generateExtSet [] ++ "\n".toList) _ rfl).2 _ shortScript_find⟩

/-- Byte for byte: around the one match in the file itself. -/
def KeepsBytes (w : WordChars) : Prop :=
  ∀ (fs : FS) (path raw cpuC before : Str) (pt : Re.Point), fs path = some (.text raw) →
    Re.findIter blockPattern raw = [pt] → raw = before ++ (pt.before ++ pt.rest) →
    ∃ fs' block, updateMarchToCpuOpt fs path (generateExtSet (parseQemuCpuC w cpuC)) =
      some (true, fs') ∧ fs' path = some (.text (before ++ (block ++ pt.rest)))

/-- A line that ends in `\r\n` is written with `\n`. -/
theorem not_keepsBytes : ¬ KeepsBytes asciiWord := by
  intro h
  have hone := oneBlock_empty "\r\n".toList [] (by decide) (by decide)
  obtain ⟨fs', block, hupdate, htext⟩ := h (FS.ofList [("opt".toList, _)]) "opt".toList _ [] _ _ rfl
    hone.find (by rw [hone.eq])
  have hread : universalNewlines ("\r\n".toList ++ (generateExtSet [] ++ [])) =
      "\n".toList ++ (generateExtSet [] ++ []) := by
    show '\n' :: universalNewlines (generateExtSet [] ++ []) = _
    rw [List.append_nil, universalNewlines_eq_self generateExtSet_nil_noCr]
    rfl
  have hone' := oneBlock_empty "\n".toList [] (by decide) (by decide)
  rw [← hread] at hone'
  have hslash : '\\' ∉ generateExtSet (parseQemuCpuC asciiWord []) :=
    not_mem_generateExtSet_slash fun _ he => isName_of_mem_parse he
  rw [OneBlock.update rfl hone' hslash] at hupdate
  obtain rfl := (Prod.mk.inj (Option.some.inj hupdate)).2
  rw [Function.update_self] at htext
  have hchars := Node.text.inj (Option.some.inj htext)
  exact absurd (List.cons.inj hchars).1 (by decide)

end ArchString
