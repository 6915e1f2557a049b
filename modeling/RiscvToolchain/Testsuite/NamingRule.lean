import RiscvToolchain.Testsuite.Filter

/- The naming rule of the allowlist files, `test/allowlist/README.md`, and that
   `get_white_list_files` selects the files it names, whatever files there are. The
   rule is stated with optional components; the source writes out the sixteen names. -/
namespace Testsuite
open Python ArchString

/-- `[<lib>.][<base>.][<ext>.][<abi>.]log`: the four components in their order, each of them
    optional, and then `log`. -/
def ruleName (lib base ext abi : Option Str) : Str :=
  (lib.toList ++ (base.toList ++ (ext.toList ++ abi.toList))).flatMap (· ++ ['.']) ++ "log".toList

/-- The names of a tool's files for a combination of target and library. -/
inductive NamingRule (libc base abi : Str) (extensions : List Str) : Str → Prop where
  | common : NamingRule libc base abi extensions "common.log".toList
  | components {l b e a : Option Str} (hl : ∀ x ∈ l, x = libc) (hb : ∀ x ∈ b, x = base)
      (he : ∀ x ∈ e, x ∈ extensions) (ha : ∀ x ∈ a, x = abi)
      (nonempty : ¬ (l = none ∧ b = none ∧ e = none ∧ a = none)) :
      NamingRule libc base abi extensions (ruleName l b e a)

/-- The extensions of what follows the base: the shorthand `g` is `imafd`, and every part
    between `_`'s is letters and then perhaps a multi-letter name. -/
def extensionsOf (s : Str) : List Str := (split '_' (expandHead s)).flatMap partExts

theorem logName_eq {parts : List Str} (h : parts ≠ []) :
    logName parts = parts.flatMap (· ++ ['.']) ++ "log".toList := by
  induction parts with
  | nil => exact absurd rfl h
  | cons w ws ih =>
    cases ws with
    | nil => simp [logName]
    | cons v ws =>
      have ih := ih (List.cons_ne_nil v ws)
      rw [logName] at ih
      rw [logName, join_cons_cons, List.append_assoc, List.append_assoc, ih, List.flatMap_cons]
      simp

theorem logName_ruleName {l b e a : Option Str}
    (h : ¬ (l = none ∧ b = none ∧ e = none ∧ a = none)) :
    logName (l.toList ++ (b.toList ++ (e.toList ++ a.toList))) = ruleName l b e a := by
  apply logName_eq
  intro hnil
  simp only [List.append_eq_nil_iff, Option.toList_eq_nil_iff] at hnil
  exact h hnil

theorem eq_none_or_eq_some {o : Option Str} {v : Str} (h : ∀ x ∈ o, x = v) :
    o = none ∨ o = some v := by
  cases o with
  | none => exact Or.inl rfl
  | some x => exact Or.inr (by rw [h x rfl])

section Names
variable {arch : Arch} {abi libc : Str}

theorem mem_whiteListNames_of_rule {name : Str}
    (h : NamingRule libc arch.baseArch abi arch.ext name) : name ∈ whiteListNames arch abi libc := by
  cases h with
  | common => exact List.mem_append_left _ (List.mem_map.mpr ⟨_, List.mem_cons_self, rfl⟩)
  | @components l b e a hl hb he ha hne =>
    rw [← logName_ruleName hne]
    obtain hl | hl := eq_none_or_eq_some hl <;> obtain hb | hb := eq_none_or_eq_some hb <;>
      obtain ha | ha := eq_none_or_eq_some ha <;> subst hl hb ha
    all_goals
      cases e with
      | none =>
        refine List.mem_append_left _ (List.mem_map.mpr ⟨_, ?_, rfl⟩)
        simp at hne ⊢
      | some ext =>
        refine List.mem_append_right _ (List.mem_flatMap.mpr ⟨ext, he ext rfl, ?_⟩)
        refine List.mem_map.mpr ⟨_, ?_, rfl⟩
        simp

theorem rule_of_mem_whiteListNames {name : Str} (h : name ∈ whiteListNames arch abi libc) :
    NamingRule libc arch.baseArch abi arch.ext name := by
  have named (l b e a : Option Str) (hl : ∀ x ∈ l, x = libc) (hb : ∀ x ∈ b, x = arch.baseArch)
      (he : ∀ x ∈ e, x ∈ arch.ext) (ha : ∀ x ∈ a, x = abi)
      (hne : ¬ (l = none ∧ b = none ∧ e = none ∧ a = none)) :
      NamingRule libc arch.baseArch abi arch.ext
        (logName (l.toList ++ (b.toList ++ (e.toList ++ a.toList)))) := by
    rw [logName_ruleName hne]
    exact .components hl hb he ha hne
  -- the names without an extension, then those with one
  rcases List.mem_append.mp h with h | h
  · simp only [List.map_cons, List.map_nil, List.mem_cons, List.not_mem_nil, or_false] at h
    rcases h with rfl | rfl | rfl | rfl | rfl | rfl | rfl | rfl
    · exact .common
    · exact named (some libc) none none none (by simp) (by simp) (by simp) (by simp) (by simp)
    · exact named none (some arch.baseArch) none none (by simp) (by simp) (by simp) (by simp) (by simp)
    · exact named none none none (some abi) (by simp) (by simp) (by simp) (by simp) (by simp)
    · exact named none (some arch.baseArch) none (some abi) (by simp) (by simp) (by simp) (by simp)
        (by simp)
    · exact named (some libc) (some arch.baseArch) none none (by simp) (by simp) (by simp) (by simp)
        (by simp)
    · exact named (some libc) none none (some abi) (by simp) (by simp) (by simp) (by simp) (by simp)
    · exact named (some libc) (some arch.baseArch) none (some abi) (by simp) (by simp) (by simp)
        (by simp) (by simp)
  · obtain ⟨ext, hext, h⟩ := List.mem_flatMap.mp h
    have he : ∀ x ∈ some ext, x ∈ arch.ext := by simpa using hext
    simp only [List.map_cons, List.map_nil, List.mem_cons, List.not_mem_nil, or_false] at h
    rcases h with rfl | rfl | rfl | rfl | rfl | rfl | rfl | rfl
    · exact named none none (some ext) none (by simp) (by simp) he (by simp) (by simp)
    · exact named none (some arch.baseArch) (some ext) none (by simp) (by simp) he (by simp) (by simp)
    · exact named none none (some ext) (some abi) (by simp) (by simp) he (by simp) (by simp)
    · exact named none (some arch.baseArch) (some ext) (some abi) (by simp) (by simp) he (by simp)
        (by simp)
    · exact named (some libc) none (some ext) none (by simp) (by simp) he (by simp) (by simp)
    · exact named (some libc) (some arch.baseArch) (some ext) none (by simp) (by simp) he (by simp)
        (by simp)
    · exact named (some libc) none (some ext) (some abi) (by simp) (by simp) he (by simp) (by simp)
    · exact named (some libc) (some arch.baseArch) (some ext) (some abi) (by simp) (by simp) he
        (by simp) (by simp)

theorem mem_whiteListNames_iff {name : Str} : name ∈ whiteListNames arch abi libc ↔
    NamingRule libc arch.baseArch abi arch.ext name :=
  ⟨rule_of_mem_whiteListNames, mem_whiteListNames_of_rule⟩

end Names

/-- The files that are selected are those that exist under a name of the rule. -/
theorem getWhiteListFiles_rule (fs : FS) {base : Str} (hbase : base ∈ archBases)
    (s abi libc dir : Str) :
    ∃ files, getWhiteListFiles fs (base ++ s) abi libc dir = .ok files ∧
      ∀ path, path ∈ files ↔ pathExists fs path = true ∧
        ∃ name, NamingRule libc base abi (extensionsOf s) name ∧ path = pathJoin dir name := by
  have hinit := arch_init hbase s
  rw [exts_eq_flatMap] at hinit
  refine ⟨_, by rw [getWhiteListFiles, hinit], ?_⟩
  intro path
  rw [List.mem_filter, List.mem_map, and_comm]
  simp only [mem_whiteListNames_iff, extensionsOf, eq_comm]

theorem getWhiteListFiles_rule_rv32im : "rv32".toList ∈ archBases ∧
    ∃ files, getWhiteListFiles (FS.ofList [("gcc/rv32.m.log".toList, [])]) "rv32im".toList
        "ilp32".toList "newlib".toList "gcc".toList = .ok files ∧
      ∀ path, path ∈ files ↔
        pathExists (FS.ofList [("gcc/rv32.m.log".toList, [])]) path = true ∧
        ∃ name, NamingRule "newlib".toList "rv32".toList "ilp32".toList
          (extensionsOf "im".toList) name ∧ path = pathJoin "gcc".toList name :=
  have hbase : "rv32".toList ∈ archBases := by decide
  ⟨hbase, getWhiteListFiles_rule _ hbase "im".toList _ _ _⟩

end Testsuite
