import RiscvToolchain.ArchString.SpikeIsa
import RiscvToolchain.ArchString.UpdateExts

/- The two simulators that `riscv64-unknown-linux-gnu-run` stands for, and what they are told.

   Correspondence (source ↔ Lean):
     `QEMU_SUPPORTED_EXTS`            ↔ `qemuSupportedExts`; the printer takes the set as an argument,
                                        as `scripts/update-ext-cpu-opt` writes other ones
     `print_qemu_cpu`                 ↔ `printQemuCpu`
     `scripts/wrapper/qemu`           ↔ `qemuRun`, its loop `qemuArgs`
     `scripts/wrapper/spike`          ↔ `spikeRun`; the wrapper makes no use of `varch`
   `readCpu` is how a list of properties in front of which the model stands is read; it says what
   the printed string is for, and nothing of it is in the source. In the wrappers the path and
   `RISC_V_SYSROOT` are not quoted: they are taken to be one word each. A call of the tool that
   fails prints nothing, and the wrapper goes on. -/
namespace ArchString
open Python

def qemuSupportedExts : List Str :=
  ["a", "b", "c", "d", "f", "m", "v", "xtheadba", "xtheadbb", "xtheadbs", "xtheadcmo",
    "xtheadcondmov", "xtheadfmemidx", "xtheadfmv", "xtheadmac", "xtheadmemidx", "xtheadmempair",
    "xtheadsync", "xventanacondops", "zaamo", "zabha", "zacas", "zalrsc", "zama16b", "zawrs", "zba",
    "zbb", "zbc", "zbkb", "zbkc", "zbkx", "zbs", "zca", "zcb", "zcd", "zce", "zcf", "zcmop", "zcmp",
    "zcmt", "zdinx", "zfa", "zfbfmin", "zfh", "zfhmin", "zfinx", "zhinx", "zhinxmin", "zic64b",
    "zicbom", "zicbop", "zicboz", "ziccrse", "zicfilp", "zicfiss", "zicntr", "zicond", "zicsr",
    "zifencei", "zihintntl", "zihintpause", "zihpm", "zimop", "zk", "zkn", "zknd", "zkne", "zknh",
    "zkr", "zks", "zksed", "zksh", "zkt", "zmmul", "ztso", "zvbb", "zvbc", "zve32f", "zve32x",
    "zve64d", "zve64f", "zve64x", "zvfbfmin", "zvfbfwma", "zvfh", "zvfhmin", "zvkb", "zvkg", "zvkn",
    "zvknc", "zvkned", "zvkng", "zvknha", "zvknhb", "zvks", "zvksc", "zvksed", "zvksg", "zvksh",
    "zvkt"].map String.toList

/-- `str` of an integer. -/
def strInt (n : Int) : Str := if n < 0 then '-' :: str n.natAbs else str n.natAbs

def baseExt (extensions : List Str) : Char := if ['e'] ∈ extensions then 'e' else 'i'

def printQemuCpu (supported : List Str) (o : CpuOptions) : Str :=
  let model := "rv".toList ++ str o.xlen ++ [baseExt o.extensions]
  let vector := if o.vlen ≠ 0 then
      ["vlen=".toList ++ strInt o.vlen, "rvv_ta_all_1s=true".toList, "rvv_ma_all_1s=true".toList]
    else []
  let exts := (o.extensions.filter (· ∈ supported)).map (· ++ "=true".toList)
  join [','] (model :: (vector ++ exts))

/-! The wrappers. -/

structure Command where
  environment : List (Str × Str)
  argv : List Str
  deriving DecidableEq, Repr

/-- A line of `cut -d, -f2-`. -/
def cutLine (line : Str) : Str :=
  match line.dropWhile (· != ',') with
  | [] => line
  | _ :: rest => rest

/-- `$(echo "$1" | cut -d, -f2-)` -/
def afterComma (arg : Str) : Str :=
  ((join ['\n'] ((split '\n' arg).map cutLine)).reverse.dropWhile (· == '\n')).reverse

def wq : Str := "-Wq,".toList

/-- The loop: the arguments for QEMU, and those that are left. -/
def qemuArgs : List Str → List Str × List Str
  | [] => ([], [])
  | arg :: rest =>
    if startsWith wq arg then (afterComma arg :: (qemuArgs rest).1, (qemuArgs rest).2)
    else ([], arg :: rest)

section Run
variable (elfAt : Str → ElfFile)

/-- What `march-to-cpu-opt --elf-file-path` prints of a file. -/
def toolPrints (print : CpuOptions → Str) (path : Str) : Str :=
  match parseElfFile (elfAt path) with
  | .ok o => print o
  | .error _ => []

def qemuRun (supported : List Str) (sysroot : Str) (args : List Str) : Command :=
  let left := (qemuArgs args).2
  let path := left.headD []
  let xlen := toolPrints elfAt (fun o => str o.xlen) path
  ⟨[("QEMU_CPU".toList, toolPrints elfAt (printQemuCpu supported) path)],
    ("qemu-riscv".toList ++ xlen) :: "-r".toList :: "5.10".toList :: (qemuArgs args).1 ++
      "-L".toList :: sysroot :: left⟩

def zicclsm : Str := "zicclsm".toList

/-- `[[ ${isa} != *_zicclsm* ]] && isa="${isa}_zicclsm"` -/
def withZicclsm (isa : Str) : Str :=
  if ('_' :: zicclsm) <:+: isa then isa else isa ++ '_' :: zicclsm

def spikeRun (pkPath : Str) (args : List Str) : Command :=
  let path := args.headD []
  let isa := withZicclsm (toolPrints elfAt printSpikeIsa path)
  ⟨[], "spike".toList :: ("--isa=".toList ++ isa) ::
    (pkPath ++ "/pk".toList ++ toolPrints elfAt (fun o => str o.xlen) path) :: args⟩

end Run

/-! Reading a list of properties. -/

/-- A property is a name, `=` and a value. -/
def readProperty (s : Str) : Str × Str :=
  (s.takeWhile (· != '='), (s.dropWhile (· != '=')).drop 1)

def readCpu (s : Str) : Str × List (Str × Str) :=
  ((split ',' s).headD [], (split ',' s).tail.map readProperty)

def printProperty (p : Str × Str) : Str := p.1 ++ '=' :: p.2

structure PlainProperty (p : Str × Str) : Prop where
  name : ',' ∉ p.1 ∧ '=' ∉ p.1
  value : ',' ∉ p.2

theorem readProperty_print {p : Str × Str} (h : PlainProperty p) :
    readProperty (printProperty p) = p := by
  have hname : ∀ c ∈ p.1, (c != '=') = true := by
    intro c hc
    simp only [bne_iff_ne, ne_eq]
    rintro rfl
    exact h.name.2 hc
  have hstop : ('=' != '=') = false := rfl
  rw [readProperty, printProperty, List.takeWhile_append_of_pos hname,
    List.dropWhile_append_of_pos hname, List.takeWhile_cons_of_neg (by rw [hstop]; simp),
    List.dropWhile_cons_of_neg (by rw [hstop]; simp), List.append_nil]
  rfl

/-- The model and the properties are read back as they were printed. -/
theorem readCpu_print {model : Str} (hmodel : ',' ∉ model) {ps : List (Str × Str)}
    (hps : ∀ p ∈ ps, PlainProperty p) :
    readCpu (join [','] (model :: ps.map printProperty)) = (model, ps) := by
  have hsplit : split ',' (join [','] (model :: ps.map printProperty)) =
      model :: ps.map printProperty := by
    refine split_join (List.cons_ne_nil _ _) ?_
    intro w hw
    rcases List.mem_cons.mp hw with rfl | hw
    · exact hmodel
    · obtain ⟨p, hp, rfl⟩ := List.mem_map.mp hw
      have hplain := hps p hp
      rw [printProperty, List.mem_append, List.mem_cons, not_or, not_or]
      exact ⟨hplain.name.1, by decide, hplain.value⟩
  rw [readCpu, hsplit, List.headD_cons, List.tail_cons, List.map_map]
  congr 1
  calc ps.map (readProperty ∘ printProperty) = ps.map id :=
        List.map_congr_left fun p hp => readProperty_print (hps p hp)
    _ = ps := List.map_id ps

/-! The number of `get_vlen`. -/

/-- The vector length that a key asks for. -/
def asksVlen (k : Str) : Option Int :=
  if k = ['v'] then some 128
  else if (startsWith "zvl".toList k ∧ k.getLast? = some 'b') ∨ startsWith "zve".toList k then
    intText (slice k 3 (k.length - 1))
  else none

/-- The lengths that the keys ask for, and `vlen`. -/
def Asked (vlen : Int) (ks : List Str) : Set Int :=
  insert vlen {n | ∃ k ∈ ks, asksVlen k = some n}

theorem extNumber_bind_ok {k : Str} {vlen w : Int}
    (h : (do let n ← extNumber k; return max vlen n : Except ElfErr Int) = .ok w) :
    ∃ n, intText (slice k 3 (k.length - 1)) = some n ∧ w = max vlen n := by
  obtain ⟨n, hn, h⟩ := bind_ok h
  rw [extNumber] at hn
  cases hread : intText (slice k 3 (k.length - 1)) with
  | none =>
    rw [hread] at hn
    cases hn
  | some m =>
    rw [hread] at hn
    cases hn
    cases h
    exact ⟨n, rfl, rfl⟩

theorem vlenStep_ok {vlen w : Int} {k : Str} (h : vlenStep vlen k = .ok w) :
    (asksVlen k = none ∧ w = vlen) ∨ ∃ n, asksVlen k = some n ∧ w = max vlen n := by
  rw [vlenStep] at h
  rw [asksVlen]
  by_cases hv : k = ['v']
  · rw [if_pos hv] at h ⊢
    cases h
    exact Or.inr ⟨128, rfl, rfl⟩
  · rw [if_neg hv] at h ⊢
    by_cases hzvl : startsWith "zvl".toList k ∧ k.getLast? = some 'b'
    · rw [if_pos hzvl] at h
      rw [if_pos (Or.inl hzvl)]
      exact Or.inr (extNumber_bind_ok h)
    · rw [if_neg hzvl] at h
      by_cases hzve : startsWith "zve".toList k = true
      · rw [if_pos hzve] at h
        rw [if_pos (Or.inr hzve)]
        exact Or.inr (extNumber_bind_ok h)
      · rw [if_neg hzve] at h
        rw [if_neg (not_or.mpr ⟨hzvl, hzve⟩)]
        cases h
        exact Or.inl ⟨rfl, rfl⟩

theorem foldlM_vlenStep_isGreatest {ks : List Str} {vlen w : Int}
    (h : ks.foldlM vlenStep vlen = .ok w) : IsGreatest (Asked vlen ks) w := by
  induction ks generalizing vlen with
  | nil =>
    cases h
    simp [Asked]
  | cons k ks ih =>
    rw [List.foldlM_cons] at h
    obtain ⟨v, hv, h⟩ := bind_ok h
    obtain ⟨hmem, hle⟩ := ih h
    have hasked : Asked v ks ⊆ Asked vlen (k :: ks) := by
      rintro m (rfl | ⟨k', hk', hm⟩)
      · rcases vlenStep_ok hv with ⟨-, rfl⟩ | ⟨n, hn, hmax⟩
        · exact Or.inl rfl
        · rcases max_choice vlen n with hchoice | hchoice
          · exact Or.inl (hmax.trans hchoice)
          · exact Or.inr ⟨k, List.mem_cons_self, hn.trans (by rw [hmax, hchoice])⟩
      · exact Or.inr ⟨k', List.mem_cons_of_mem k hk', hm⟩
    refine ⟨hasked hmem, ?_⟩
    have hvw : v ≤ w := hle (Or.inl rfl)
    rintro m (rfl | ⟨k', hk', hm⟩)
    · rcases vlenStep_ok hv with ⟨-, rfl⟩ | ⟨n, -, rfl⟩
      · exact hvw
      · exact (le_max_left _ _).trans hvw
    · rcases List.mem_cons.mp hk' with rfl | hk'
      · rcases vlenStep_ok hv with ⟨hnone, -⟩ | ⟨n, hn, rfl⟩
        · rw [hnone] at hm
          cases hm
        · rw [hn] at hm
          cases hm
          exact (le_max_right _ _).trans hvw
      · exact hle (Or.inr ⟨k', hk', hm⟩)

/-! What the simulators are told. -/

theorem parseElfFile_ok {elf : ElfFile} {s : Str} {d : Exts} {o : CpuOptions}
    (hattr : readArchAttr elf = .ok s) (hmarch : parseMarch s = .ok (some d))
    (h : parseElfFile elf = .ok o) : ∃ vlen : Nat, IsGreatest (Asked 0 d.keys) vlen ∧
      o = ⟨elf.elfclass, vlen, getElen d elf.elfclass, d.keys⟩ := by
  rw [parseElfFile_eq hattr hmarch] at h
  obtain ⟨v, hv, h⟩ := bind_ok h
  cases h
  have hgreatest := foldlM_vlenStep_isGreatest hv
  obtain ⟨n, rfl⟩ := Int.eq_ofNat_of_zero_le (hgreatest.2 (Or.inl rfl))
  exact ⟨n, hgreatest, rfl⟩

/-- Names that can be properties. -/
def PlainNames (supported : List Str) : Prop := ∀ e ∈ supported, ',' ∉ e ∧ '=' ∉ e

theorem plainNames_of_isName {w : WordChars} {supported : List Str}
    (h : ∀ e ∈ supported, IsName w e) : PlainNames supported := fun e he =>
  ⟨WordChars.not_mem (h e he) (by decide) (by decide),
    WordChars.not_mem (h e he) (by decide) (by decide)⟩

theorem plainNames_qemuSupportedExts : PlainNames qemuSupportedExts := by
  unfold PlainNames
  decide +kernel

def vectorProperties (vlen : Nat) : List (Str × Str) :=
  if vlen = 0 then []
  else [("vlen".toList, str vlen), ("rvv_ta_all_1s".toList, "true".toList),
    ("rvv_ma_all_1s".toList, "true".toList)]

def extProperties (supported exts : List Str) : List (Str × Str) :=
  (exts.filter (· ∈ supported)).map fun e => (e, "true".toList)

theorem printQemuCpu_eq (supported : List Str) (xlen vlen elen : Nat) (exts : List Str) :
    printQemuCpu supported ⟨xlen, vlen, elen, exts⟩ =
      join [','] (("rv".toList ++ str xlen ++ [baseExt exts]) ::
        (vectorProperties vlen ++ extProperties supported exts).map printProperty) := by
  have hexts : (extProperties supported exts).map printProperty =
      (exts.filter (· ∈ supported)).map (· ++ "=true".toList) := by
    rw [extProperties, List.map_map]
    rfl
  rw [List.map_append, hexts, printQemuCpu, vectorProperties]
  by_cases hzero : vlen = 0
  · subst hzero
    rfl
  · rw [if_pos (by simpa using hzero), if_neg hzero, strInt, if_neg (by simp)]
    rfl

theorem isDigit_comma {n : Nat} : ',' ∉ str n := fun h =>
  absurd (isDigit_of_mem_str h) (by decide)

theorem readCpu_printQemuCpu {supported : List Str} (hplain : PlainNames supported)
    (xlen vlen elen : Nat) (exts : List Str) :
    readCpu (printQemuCpu supported ⟨xlen, vlen, elen, exts⟩) =
      ("rv".toList ++ str xlen ++ [baseExt exts],
        vectorProperties vlen ++ extProperties supported exts) := by
  rw [printQemuCpu_eq]
  refine readCpu_print ?_ ?_
  · have hbase : ',' ≠ baseExt exts := by
      rw [baseExt]
      split
      · decide
      · decide
    simp only [List.mem_append, List.mem_singleton, not_or]
    exact ⟨⟨by decide, isDigit_comma⟩, hbase⟩
  · intro p hp
    rcases List.mem_append.mp hp with hp | hp
    · rw [vectorProperties] at hp
      split at hp
      · cases hp
      · simp only [List.mem_cons, List.not_mem_nil, or_false] at hp
        rcases hp with rfl | rfl | rfl
        · exact ⟨(by decide : ',' ∉ "vlen".toList ∧ '=' ∉ "vlen".toList), isDigit_comma⟩
        · exact ⟨by decide, by decide⟩
        · exact ⟨by decide, by decide⟩
    · obtain ⟨e, he, rfl⟩ := List.mem_map.mp hp
      have hsupported : e ∈ supported := by simpa using (List.mem_filter.mp he).2
      exact ⟨hplain e hsupported, (by decide : ',' ∉ "true".toList)⟩

theorem afterComma_wq {o : Str} (h : '\n' ∉ o) : afterComma (wq ++ o) = o := by
  have hline : '\n' ∉ wq ++ o := by
    rw [List.mem_append, not_or]
    exact ⟨by decide, h⟩
  have hcut : cutLine (wq ++ o) = o := rfl
  rw [afterComma, split_of_not_mem hline, List.map_singleton, hcut, join_singleton]
  have hlast : o.reverse.dropWhile (· == '\n') = o.reverse := by
    cases hr : o.reverse with
    | nil => rfl
    | cons c r =>
      have hc : c ≠ '\n' := by
        rintro rfl
        exact h (List.mem_reverse.mp (hr ▸ List.mem_cons_self))
      exact List.dropWhile_cons_of_neg (by simpa using hc)
  rw [hlast, List.reverse_reverse]

theorem qemuArgs_options {opts : List Str} (hopts : ∀ o ∈ opts, '\n' ∉ o) {path : Str}
    (hpath : ¬ wq <+: path) (args : List Str) :
    qemuArgs (opts.map (wq ++ ·) ++ path :: args) = (opts, path :: args) := by
  induction opts with
  | nil =>
    rw [List.map_nil, List.nil_append, qemuArgs, if_neg fun h => hpath (startsWith_iff.mp h)]
  | cons o opts ih =>
    obtain ⟨ho, hrest⟩ := List.forall_mem_cons.mp hopts
    rw [List.map_cons, List.cons_append, qemuArgs, if_pos (startsWith_append wq o), ih hrest,
      afterComma_wq ho]

def zvl128bOptions : CpuOptions := ⟨64, 128, 64, zvl128bExts.keys⟩

theorem parseElfFile_zvl128b : parseElfFile (archFile zvl128b 64) = .ok zvl128bOptions := rfl

/-- An occurrence that starts with the separator starts at one. -/
theorem infix_sep_iff {p a b : Str} (ha : '_' ∉ a) :
    ('_' :: p) <:+: a ++ '_' :: b ↔ p <+: b ∨ ('_' :: p) <:+: b := by
  induction a with
  | nil => rw [List.nil_append, List.infix_cons_iff, List.cons_prefix_cons]; simp
  | cons c a ih =>
    rw [List.mem_cons, not_or] at ha
    rw [List.cons_append, List.infix_cons_iff, List.cons_prefix_cons, ih ha.2]
    simp [ha.1]

theorem not_infix_of_not_mem {p a : Str} (ha : '_' ∉ a) : ¬ ('_' :: p) <:+: a :=
  fun h => ha (h.subset List.mem_cons_self)

/-- The printed keys have a long name behind a separator exactly when one of them starts with it. -/
theorem infix_printed_iff {p : Str} (hlen : 1 < p.length) (hp : '_' ∉ p) {ks : List Str}
    (hks : ∀ k ∈ ks, IsKey k) (hglued : NotGlued ks) {w : Str} (hw : '_' ∉ w) :
    ('_' :: p) <:+: w ++ printed ks ↔ ∃ k ∈ ks, p <+: k := by
  induction ks generalizing w with
  | nil =>
    rw [show printed [] = [] from rfl, List.append_nil]
    exact iff_of_false (not_infix_of_not_mem hw) (by simp)
  | cons k ks ih =>
    obtain ⟨hk, hrest⟩ := List.forall_mem_cons.mp hks
    have htail : NotGlued ks := List.IsChain.tail hglued
    rw [printed_cons, normalizedExtName]
    by_cases hlong : 1 < k.length
    · have hname := isMcName_of_long hk hlong
      rw [if_pos hlong, List.cons_append, infix_sep_iff hw, ih hrest htail hname.noSep]
      have hhead : p <+: k ++ printed ks ↔ p <+: k := by
        refine ⟨fun h => ?_, fun h => h.trans (List.prefix_append ..)⟩
        rcases List.prefix_or_prefix_of_prefix h (List.prefix_append k (printed ks)) with h' | ⟨r, rfl⟩
        · exact h'
        · -- what follows the name is nothing, or a separator
          rw [List.prefix_append_right_inj] at h
          cases ks with
          | nil =>
            rw [List.prefix_nil.mp h, List.append_nil]
          | cons k' ks =>
            have hlong' := ((notGlued_cons_name hname.head k' ks).mp hglued).1
            rw [printed_cons, normalizedExtName, if_pos hlong', List.cons_append] at h
            cases r with
            | nil => rw [List.append_nil]
            | cons c r =>
              obtain ⟨rfl, -⟩ := List.cons_prefix_cons.mp h
              exact absurd (List.mem_append_right k List.mem_cons_self) hp
      rw [hhead, List.exists_mem_cons_iff]
    · rw [if_neg hlong, ← List.append_assoc]
      obtain ⟨c, rfl, -, hc, -⟩ := isKey_short hk hlong
      have hw' : '_' ∉ w ++ [c] := by
        rw [List.mem_append, List.mem_singleton, not_or]
        exact ⟨hw, hc.symm⟩
      rw [ih hrest htail hw', List.exists_mem_cons_iff]
      have hnot : ¬ p <+: [c] := by
        intro h
        have hle := h.length_le
        rw [List.length_singleton] at hle
        omega
      rw [or_iff_right hnot]

theorem isMcName_zicclsm : IsMcName zicclsm := by
  refine ⟨by decide, by decide, ?_⟩
  intro c hc
  cases hc
  rfl

/-- Printing `zicclsm` behind the other keys glues nothing. -/
theorem NotGlued.concat_zicclsm {ks : List Str} (h : NotGlued ks) : NotGlued (ks ++ [zicclsm]) := by
  refine List.isChain_append.mpr ⟨h, List.isChain_singleton _, ?_⟩
  intro a ha b hb _
  rw [List.head?_cons] at hb
  cases hb
  decide

end ArchString
