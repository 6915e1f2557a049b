import RiscvToolchain.ArchString.Render
import RiscvToolchain.ArchString.Agreement

/- `scripts/march-to-cpu-opt`: the ISA string for Spike, from the attributes of an ELF file.

   Correspondence (Python ↔ Lean):
     the file, as `elftools` shows it ↔ `ElfFile`: its class and the values of its attributes
     `read_arch_attr`                 ↔ `readArchAttr`
     `get_vlen`, `get_elen`           ↔ `getVlen`, `getElen`
     `CPU_OPTIONS`                    ↔ `CpuOptions`, as `parse_elf_file` leaves it
     `parse_elf_file`                 ↔ `parseElfFile`; what it leaves behind on an exception
                                        is seen by nobody
     `print_spike_isa`                ↔ `printSpikeIsa`
   The string has no versions, and a `_` only in front of what is longer than one letter. A
   name that starts with one of `mcExtPrefix` runs to the next `_`, so the one-letter keys
   that are printed after it are read as its end: `parseMarch` reads the keys back glued
   (`parseMarch_printed`), and that they are all there is that nothing was glued
   (`glue_cases`). -/
namespace ArchString
open Python

/-- A file with a `.riscv.attributes` section, or with no attributes; a value that is no
    string is `none`. -/
structure ElfFile where
  path : Str
  attributes : List (Option Str)
  elfclass : Nat

inductive ElfErr where
  | notFoundAttribute (path : Str)
  | march (e : MarchErr)
  | attributeError
  | valueError
  deriving DecidableEq, Repr

structure CpuOptions where
  xlen : Nat
  vlen : Int
  elen : Nat
  extensions : List Str

/-- `SPIKE_EXT_NOT_ALLOWED`. -/
def spikeExtNotAllowed : List Str :=
  ["zve32x", "zve32f", "zve64x", "zve64f", "zve64d", "zvl32b", "zvl64b", "zvl128b", "zvl256b",
    "zvl512b", "zvl1024b", "zvl2048b", "zvl4096b"].map String.toList

/-- What the loop of `read_arch_attr` returns for a value, if it stops there. -/
def archAttrValue (val : Str) : Option Str :=
  let pos32 := findStr "rv32".toList val
  let pos64 := findStr "rv64".toList val
  -- the workaround for a tag that was read as two characters too many
  let val := if pos32 = some 2 ∨ pos64 = some 2 then val.drop 2 else val
  if pos32 ≠ none ∨ pos64 ≠ none then some val else none

def readArchAttr (elf : ElfFile) : Except ElfErr Str :=
  match elf.attributes.findSome? (·.bind archAttrValue) with
  | some val => .ok val
  | none => .error (.notFoundAttribute elf.path)

/-- `int(ext[3:-1])`. -/
def extNumber (ext : Str) : Except ElfErr Int :=
  match intText (slice ext 3 (ext.length - 1)) with
  | some n => .ok n
  | none => .error .valueError

/-- The body of the loop of `get_vlen`. -/
def vlenStep (vlen : Int) (ext : Str) : Except ElfErr Int :=
  if ext = ['v'] then .ok (max vlen 128)
  else if startsWith "zvl".toList ext ∧ ext.getLast? = some 'b' then do
    let zvlen ← extNumber ext
    return max vlen zvlen
  else if startsWith "zve".toList ext then do
    let zvelen ← extNumber ext
    return max vlen zvelen
  else .ok vlen

def getVlen (extDict : Exts) : Except ElfErr Int := extDict.keys.foldlM vlenStep 0

def getElen (extDict : Exts) (xlen : Nat) : Nat :=
  let elen := if "zve32x".toList ∈ extDict.keys ∨ "zve32f".toList ∈ extDict.keys then 32 else xlen
  if "zve64x".toList ∈ extDict.keys ∨ "zve64f".toList ∈ extDict.keys ∨
    "zve64d".toList ∈ extDict.keys then 64 else elen

def parseElfFile (elf : ElfFile) : Except ElfErr CpuOptions := do
  let val ← readArchAttr elf
  match parseMarch val with
  | .error e => .error (.march e)
  | .ok none => .error .attributeError
  | .ok (some extensionDict) =>
    let extensions := extensionDict.keys
    let xlen := elf.elfclass
    let vlen ← getVlen extensionDict
    return { extensions, vlen, elen := getElen extensionDict xlen, xlen }

def normalizedExtName (ext : Str) : Str := if 1 < ext.length then '_' :: ext else ext

def printSpikeIsa (o : CpuOptions) : Str :=
  let exts := o.extensions.filter (· ∉ spikeExtNotAllowed)
  join [] (("rv".toList ++ str o.xlen) :: exts.map normalizedExtName)

/-! The keys. -/

/-- What `parse_mc_ext` reads: it starts with one of `mcExtPrefix`. -/
def isMcExt (k : Str) : Bool :=
  match k with
  | [] => false
  | c :: _ => startsName c

structure IsMcName (k : Str) : Prop where
  head : isMcExt k = true
  noSep : '_' ∉ k
  last : ∀ c ∈ k.getLast?, isdigit c = false

def IsKey (k : Str) : Prop := (∃ c ∈ supporttedExts, k = [c]) ∨ IsMcName k

theorem startsName_spec {c : Char} (h : startsName c = true) :
    isdigit c = false ∧ c ≠ '_' ∧ c ≠ 'g' := by
  have hc : c ∈ ['z', 's', 'x'] := startsName_iff.mp h
  simp only [List.mem_cons, List.not_mem_nil, or_false] at hc
  rcases hc with rfl | rfl | rfl <;> decide

theorem isMcExt_iff {k : Str} : isMcExt k = true ↔ ∃ c ∈ mcExtPrefix, k.head? = some c := by
  cases k with
  | nil => simp [isMcExt]
  | cons c k => simp [isMcExt, startsName_iff]

theorem slice_isPrefix {s : Str} {i j k : Nat} (h : j ≤ k) : slice s i j <+: slice s i k := by
  rw [slice, slice, List.drop_take, List.drop_take]
  exact List.take_prefix_take_left (by omega)

theorem isMcName_of_parseMcExt {s name : Str} {i next : Nat} {v : Nat × Nat} {c : Char}
    (h : s[i]? = some c) (hc : c ∈ mcExtPrefix) (hv : parseMcExt s i = .ok (next, name, v)) :
    IsMcName name := by
  obtain ⟨hd, hp, -⟩ := mcExtPrefix_spec hc
  obtain ⟨-, ⟨q, x, hq, hend, rfl, hx, hxd⟩, -⟩ := parseMcExt_ok h hd hp hv
  refine ⟨isMcExt_iff.mpr ⟨c, hc, head?_slice h (by omega)⟩, ?_, ?_⟩
  · -- the part it is cut from has no separator
    intro hmem
    have hpart : '_' ∉ slice s i (partEnd s i) := by
      rw [slice_partEnd h, List.mem_cons, not_or]
      refine ⟨(startsName_spec (startsName_iff.mpr hc)).2.1.symm, ?_⟩
      intro hu
      exact absurd (List.mem_takeWhile_imp hu) (by decide)
    exact hpart ((slice_isPrefix hend).subset hmem)
  · intro y hy
    rw [getLast?_slice hx hq] at hy
    cases hy
    exact hxd

theorem baseIsas_letter {w : Str} (h : w ∈ baseIsas) :
    ∃ b ∈ supporttedExts, w = w.take 4 ++ [b] := by
  have hw : w ∈ ["rv64i".toList, "rv32i".toList, "rv32e".toList] := h
  simp only [List.mem_cons, List.not_mem_nil, or_false] at hw
  rcases hw with rfl | rfl | rfl
  · exact ⟨'i', by decide, rfl⟩
  · exact ⟨'i', by decide, rfl⟩
  · exact ⟨'e', by decide, rfl⟩

/-- The keys of a dictionary: the letter of the base, then names of the two kinds, in none of
    which a shorthand is left. -/
theorem keys_parseMarch {s : Str} {d : Exts} (h : parseMarch s = .ok (some d)) :
    ∃ b ks, d.keys = [b] :: ks ∧ s.take 4 ++ [b] ∈ baseIsas ∧ b ∈ supporttedExts ∧
      ∀ k ∈ ks, IsKey k ∧ ∀ o ∈ shorthands, ¬ o <:+: k := by
  obtain ⟨hisa, hloop⟩ := parseMarch_eq_ok_some h
  obtain ⟨b, hb, htake⟩ := baseIsas_letter hisa
  rw [List.take_take, show min 4 5 = 4 from rfl, take_expandG] at htake
  have hlen : (s.take 4).length = 4 := by
    have hfive := length_baseIsas _ hisa
    rw [htake, List.length_append, List.length_singleton] at hfive
    omega
  obtain ⟨t, ht⟩ : ∃ t, (expandG s).drop 4 = b :: t := by
    refine ⟨(expandG s).drop 5, ?_⟩
    have hcut := List.take_append_drop 5 (expandG s)
    rw [htake, List.append_assoc, List.singleton_append] at hcut
    conv_lhs => rw [← hcut, List.drop_left' hlen]
  -- the first pass sets the letter of the base
  rw [ht, List.length_cons, parseExts] at hloop
  simp only [List.getElem?_cons_zero, hb, if_true] at hloop
  obtain ⟨⟨next, name, v⟩, hv, hloop⟩ := bind_ok hloop
  have hb0 : (b :: t)[0]? = some b := rfl
  obtain rfl := (parseVersion_ok hb0 hv).1
  have hinfix : ∀ k, KeyShape (b :: t) k → ∀ o ∈ shorthands, ¬ o <:+: k := by
    intro k hk o ho hin
    refine not_infix_expandG ho s (hin.trans (hk.occurs.trans ?_))
    rw [← ht]
    exact (List.drop_suffix 4 _).isInfix
  obtain ⟨ks, hks, hshape⟩ := keys_parseExts
    (P := fun k => IsKey k ∧ ∀ o ∈ shorthands, ¬ o <:+: k)
    (fun i c hi hc => ⟨Or.inl ⟨c, hc, rfl⟩, hinfix _ (keyShape_letter hi hc)⟩)
    (fun i c next n v hi hc hn => ⟨Or.inr (isMcName_of_parseMcExt hi hc hn),
      hinfix _ (keyShape_name hi hc hn)⟩) _ _ _ _ hloop
  refine ⟨b, ks, ?_, htake ▸ hisa, hb, hshape⟩
  rw [hks]
  rfl

/-! Reading the printed keys. -/

def printed (ks : List Str) : Str := ks.flatMap normalizedExtName

/-- The names a reader finds in the printed keys: one that is open goes on up to the next key
    that is longer than a letter. -/
def glue : Option Str → List Str → List Str
  | none, [] => []
  | some n, [] => [n]
  | none, k :: ks => if isMcExt k then glue (some k) ks else k :: glue none ks
  | some n, k :: ks => if 1 < k.length then n :: glue (some k) ks else glue (some (n ++ k)) ks

/-- What is read without a version. -/
def bareEntry (k : Str) : Str × (Nat × Nat) := (k, if isMcExt k then (0, 0) else (2, 0))

theorem isKey_short {k : Str} (h : IsKey k) (hlen : ¬ 1 < k.length) :
    ∃ c, k = [c] ∧ isdigit c = false ∧ c ≠ '_' ∧ c ≠ 'g' := by
  rcases h with ⟨c, hc, rfl⟩ | hname
  · obtain ⟨hd, hu, hg, -⟩ := supporttedExts_spec hc
    exact ⟨c, rfl, hd, hu, hg⟩
  · cases k with
    | nil => exact absurd hname.head (by decide)
    | cons c k =>
      have hnil : k = [] := by
        rw [List.length_cons] at hlen
        exact List.length_eq_zero_iff.mp (by omega)
      subst hnil
      exact ⟨c, rfl, startsName_spec hname.head⟩

/-- A key longer than a letter is a name. -/
theorem isMcName_of_long {k : Str} (h : IsKey k) (hlen : 1 < k.length) : IsMcName k := by
  rcases h with ⟨c, -, rfl⟩ | hname
  · exact absurd hlen (by simp)
  · exact hname

theorem IsMcName.glue {n k : Str} (hn : IsMcName n) (hk : IsKey k) (hlen : ¬ 1 < k.length) :
    IsMcName (n ++ k) := by
  obtain ⟨c, rfl, hd, hu, -⟩ := isKey_short hk hlen
  refine ⟨?_, ?_, ?_⟩
  · cases n with
    | nil => exact absurd hn.head (by decide)
    | cons x n => exact hn.head
  · simp [hn.noSep, hu.symm]
  · intro x hx
    rw [List.getLast?_concat] at hx
    cases hx
    exact hd

theorem printed_cons (k : Str) (ks : List Str) :
    printed (k :: ks) = normalizedExtName k ++ printed ks := List.flatMap_cons

/-- After a key that is printed no digit stands. -/
theorem isdigit_head_printed {ks : List Str} (h : ∀ k ∈ ks, IsKey k) :
    ∀ x ∈ (printed ks).head?, isdigit x = false := by
  cases ks with
  | nil =>
    intro x hx
    cases hx
  | cons k ks =>
    intro x hx
    rw [printed_cons, normalizedExtName] at hx
    split at hx
    · cases hx
      decide
    · next hlen =>
      obtain ⟨c, rfl, hd, -, -⟩ := isKey_short (h k List.mem_cons_self) hlen
      cases hx
      exact hd

section Passes
variable {text : Str} {es : List (Str × (Nat × Nat))}

theorem reads_bare {c : Char} (hc : c ∈ supporttedExts)
    (ht : ∀ x ∈ text.head?, isdigit x = false) (h : Reads text es) :
    Reads (c :: text) (bareEntry [c] :: es) := by
  have hdigits : digits text = [] := by
    have hd := @digits_append [] text (fun x hx => absurd hx List.not_mem_nil) ht
    exact hd
  have hmc : isMcExt [c] = false := (supporttedExts_spec hc).2.2.2
  have hentry : bareEntry [c] = ([c], (2, 0)) := by rw [bareEntry, hmc]; rfl
  rw [hentry]
  refine Reads.cons (List.cons_ne_nil c []) ?_ h
  intro a fuel exts
  have hget : (a ++ ([c] ++ text))[a.length]? = some c := by simp
  rw [parseExts, hget]
  simp only [hc, if_true]
  rw [List.singleton_append, parseVersion_bare a text c hdigits]
  rfl

theorem reads_name {n : Str} (hn : IsMcName n) (ht : text = [] ∨ ∃ u, text = '_' :: u)
    (h : Reads text es) : Reads (n ++ text) (bareEntry n :: es) := by
  have hentry : bareEntry n = (n, (0, 0)) := by rw [bareEntry, if_pos hn.head]
  obtain ⟨c, hc, hhead⟩ := isMcExt_iff.mp hn.head
  obtain ⟨l, rfl⟩ : ∃ l, n = c :: l := ⟨_, List.eq_cons_of_mem_head? hhead⟩
  obtain ⟨hd, -, hsupp⟩ := mcExtPrefix_spec hc
  have htrail : trailingDigits (c :: l) = [] := by
    have h := @trailingDigits_append (c :: l) [] (fun x hx => absurd hx List.not_mem_nil) hn.last
    rwa [List.append_nil] at h
  rw [hentry]
  refine Reads.cons (List.cons_ne_nil c l) ?_ h
  intro a fuel exts
  have hget : (a ++ (c :: l ++ text))[a.length]? = some c := by simp
  rw [parseExts, hget]
  simp only [hsupp, if_false, hc, if_true]
  rw [parseMcExt_plain a text hd hn.noSep ht htrail]
  rfl

end Passes

/-- The loop over printed keys, where a name may be open. -/
theorem reads_glue (ks : List Str) (h : ∀ k ∈ ks, IsKey k) :
    Reads (printed ks) ((glue none ks).map bareEntry) ∧
      ∀ n, IsMcName n → Reads (n ++ printed ks) ((glue (some n) ks).map bareEntry) := by
  induction ks with
  | nil => exact ⟨reads_nil, fun n hn => reads_name hn (Or.inl rfl) reads_nil⟩
  | cons k ks ih =>
    have hks : ∀ k ∈ ks, IsKey k := fun k hk => h k (List.mem_cons_of_mem _ hk)
    have hk := h k List.mem_cons_self
    obtain ⟨hnone, hsome⟩ := ih hks
    by_cases hlen : 1 < k.length
    · -- a separator, and an open name ends here
      have hname := isMcName_of_long hk hlen
      have hprinted : printed (k :: ks) = '_' :: (k ++ printed ks) := by
        rw [printed_cons, normalizedExtName, if_pos hlen]
        rfl
      have hopen := (hsome k hname).sep
      rw [hprinted]
      constructor
      · rw [glue, if_pos hname.head]
        exact hopen
      · intro n hn
        rw [glue, if_pos hlen]
        exact reads_name hn (Or.inr ⟨_, rfl⟩) hopen
    · -- no separator: the key is read on its own, or as the end of an open name
      have hprinted : printed (k :: ks) = k ++ printed ks := by
        rw [printed_cons, normalizedExtName, if_neg hlen]
      rw [hprinted]
      constructor
      · rw [glue]
        rcases hk with ⟨c, hc, rfl⟩ | hname
        · have hmc : isMcExt [c] = false := (supporttedExts_spec hc).2.2.2
          rw [if_neg (by simp [hmc])]
          exact reads_bare hc (isdigit_head_printed hks) hnone
        · rw [if_pos hname.head]
          exact hsome k hname
      · intro n hn
        rw [glue, if_neg hlen, ← List.append_assoc]
        exact hsome (n ++ k) (hn.glue hk hlen)

/-! Whether anything is glued. -/

/-- No name stands directly before a key of one letter. -/
def NotGlued (ks : List Str) : Prop :=
  ks.IsChain fun a b => isMcExt a = true → 1 < b.length

theorem notGlued_cons_letter {k : Str} (hk : isMcExt k = false) (ks : List Str) :
    NotGlued (k :: ks) ↔ NotGlued ks := by
  cases ks with
  | nil => simp [NotGlued]
  | cons b ks => simp [NotGlued, hk]

theorem notGlued_cons_name {n : Str} (hn : isMcExt n = true) (k : Str) (ks : List Str) :
    NotGlued (n :: k :: ks) ↔ 1 < k.length ∧ NotGlued (k :: ks) := by
  simp [NotGlued, hn]

/-- Either every key is read back, or there are fewer names than keys. -/
theorem glue_cases (ks : List Str) (h : ∀ k ∈ ks, IsKey k) :
    ((NotGlued ks ∧ glue none ks = ks) ∨ (¬ NotGlued ks ∧ (glue none ks).length < ks.length)) ∧
    ∀ n, isMcExt n = true →
      (NotGlued (n :: ks) ∧ glue (some n) ks = n :: ks) ∨
      (¬ NotGlued (n :: ks) ∧ (glue (some n) ks).length ≤ ks.length) := by
  induction ks with
  | nil => exact ⟨Or.inl ⟨List.IsChain.nil, rfl⟩, fun n _ => Or.inl ⟨List.IsChain.singleton n, rfl⟩⟩
  | cons k ks ih =>
    obtain ⟨hnone, hsome⟩ := ih fun k hk => h k (List.mem_cons_of_mem _ hk)
    have hk := h k List.mem_cons_self
    constructor
    · rw [glue]
      split
      · next hmc =>
        rcases hsome k hmc with ⟨hchain, heq⟩ | ⟨hchain, hlen⟩
        · exact Or.inl ⟨hchain, heq⟩
        · exact Or.inr ⟨hchain, Nat.lt_succ_of_le hlen⟩
      · next hmc =>
        rw [notGlued_cons_letter (by simpa using hmc)]
        rcases hnone with ⟨hchain, heq⟩ | ⟨hchain, hlen⟩
        · exact Or.inl ⟨hchain, by rw [heq]⟩
        · exact Or.inr ⟨hchain, Nat.succ_lt_succ hlen⟩
    · intro n hn
      rw [glue, notGlued_cons_name hn]
      split
      · next hlong =>
        have hmc := (isMcName_of_long hk hlong).head
        rcases hsome k hmc with ⟨hchain, heq⟩ | ⟨hchain, hlen⟩
        · exact Or.inl ⟨⟨hlong, hchain⟩, by rw [heq]⟩
        · exact Or.inr ⟨fun hc => hchain hc.2, Nat.succ_le_succ hlen⟩
      · -- one name for two keys, from here to the end of the list
        next hshort =>
        have hglued : isMcExt (n ++ k) = true := by
          cases n with
          | nil => exact absurd hn (by decide)
          | cons x n => exact hn
        refine Or.inr ⟨fun hc => hshort hc.1, ?_⟩
        rcases hsome (n ++ k) hglued with ⟨-, heq⟩ | ⟨-, hlen⟩
        · rw [heq]
          simp
        · exact Nat.le_succ_of_le hlen

/-- No letter after a name. -/
def LettersFirst (ks : List Str) : Prop :=
  ks.Pairwise fun a b => isMcExt a = true → isMcExt b = true

theorem notGlued_names {n : Str} {ks : List Str} (h : ∀ k ∈ n :: ks, isMcExt k = true) :
    NotGlued (n :: ks) ↔ ∀ k ∈ ks, 1 < k.length := by
  induction ks generalizing n with
  | nil => simp [NotGlued]
  | cons k ks ih =>
    rw [notGlued_cons_name (h n List.mem_cons_self),
      ih fun k hk => h k (List.mem_cons_of_mem _ hk), List.forall_mem_cons]

theorem notGlued_iff {ks : List Str} (h : LettersFirst ks) :
    NotGlued ks ↔ ∀ n ∈ (ks.filter isMcExt).tail, 1 < n.length := by
  induction ks with
  | nil => simp [NotGlued]
  | cons k ks ih =>
    obtain ⟨hk, hks⟩ := List.pairwise_cons.mp h
    by_cases hmc : isMcExt k = true
    · have hall : ∀ b ∈ ks, isMcExt b = true := fun b hb => hk b hb hmc
      rw [List.filter_cons_of_pos hmc, List.filter_eq_self.mpr hall, List.tail_cons]
      refine notGlued_names ?_
      intro b hb
      rcases List.mem_cons.mp hb with rfl | hb
      · exact hmc
      · exact hall b hb
    · rw [List.filter_cons_of_neg hmc, notGlued_cons_letter (by simpa using hmc), ih hks]

/-! The printed string. -/

theorem shorthand_eq {o : Str} (ho : o ∈ shorthands) : ∃ o', o = o' ++ ['g'] ∧ '_' ∉ o := by
  rcases List.mem_pair.mp ho with rfl | rfl
  · exact ⟨"rv32".toList, rfl, by decide⟩
  · exact ⟨"rv64".toList, rfl, by decide⟩

/-- Printing brings no shorthand back. -/
theorem not_infix_printed {o : Str} (ho : o ∈ shorthands) {ks : List Str}
    (h : ∀ k ∈ ks, IsKey k ∧ ¬ o <:+: k) {w : Str} (hw : ¬ o <:+: w) :
    ¬ o <:+: w ++ printed ks := by
  obtain ⟨o', rfl, hsep⟩ := shorthand_eq ho
  induction ks generalizing w with
  | nil => simpa [printed] using hw
  | cons k ks ih =>
    obtain ⟨hk, hnot⟩ := h k List.mem_cons_self
    rw [printed_cons, ← List.append_assoc]
    refine ih (fun k hk => h k (List.mem_cons_of_mem _ hk)) ?_
    intro hin
    rw [normalizedExtName] at hin
    split at hin
    · -- the shorthand has no separator
      rcases infix_append_sep hsep hin with hin | hin
      · exact hw hin
      · exact hnot hin
    · next hlen =>
      -- a letter that is not the `g`
      obtain ⟨c, rfl, -, -, hg⟩ := isKey_short hk hlen
      exact hw (infix_of_append (by simpa using hg.symm) hin)

/-- `parse_march` reads a base and printed keys as the glued names. -/
theorem parseMarch_printed {base : Str} {b : Char} {ks : List Str}
    (hisa : base ++ [b] ∈ baseIsas) (hb : b ∈ supporttedExts)
    (h : ∀ k ∈ ks, IsKey k ∧ ∀ o ∈ shorthands, ¬ o <:+: k) :
    parseMarch (base ++ printed ([b] :: ks)) =
      .ok (some (Dict.empty.assign ((glue none ([b] :: ks)).map bareEntry))) := by
  have hkeys : ∀ k ∈ [b] :: ks, IsKey k := by
    intro k hk
    rcases List.mem_cons.mp hk with rfl | hk
    · exact Or.inl ⟨b, hb, rfl⟩
    · exact (h k hk).1
  have hnot : ∀ o ∈ shorthands, ¬ o <:+: base ++ printed ([b] :: ks) := by
    intro o ho
    have hbase := length_baseIsas _ hisa
    have hfive : ∀ o ∈ shorthands, o.length = 5 := by decide
    have hfive := hfive o ho
    rw [List.length_append, List.length_singleton] at hbase
    refine not_infix_printed ho ?_ (not_infix_of_length (by omega))
    intro k hk
    refine ⟨hkeys k hk, ?_⟩
    rcases List.mem_cons.mp hk with rfl | hk
    · exact not_infix_of_length (by rw [hfive]; simp)
    · exact (h k hk).2 o ho
  have hG : expandG (base ++ printed ([b] :: ks)) = base ++ printed ([b] :: ks) := by
    rw [expandG, replace_eq_self (hnot _ (by decide)), replace_eq_self (hnot _ (by decide))]
  exact parseMarch_of_reads hisa hG (reads_glue ([b] :: ks) hkeys).1

/-! `get_vlen`. -/

/-- Where `get_vlen` converts a part of the key, the part is a number. -/
def VlenReads (ext : Str) : Prop :=
  (startsWith "zvl".toList ext ∧ ext.getLast? = some 'b') ∨ startsWith "zve".toList ext →
    (intText (slice ext 3 (ext.length - 1))).isSome

theorem extNumber_cases (ext : Str) (vlen : Int) :
    (∃ w, (do let n ← extNumber ext; return max vlen n : Except ElfErr Int) = .ok w) ↔
      (intText (slice ext 3 (ext.length - 1))).isSome := by
  rw [extNumber]
  cases intText (slice ext 3 (ext.length - 1)) with
  | none => exact iff_of_false (fun ⟨w, h⟩ => by cases h) (by simp)
  | some n => exact iff_of_true ⟨_, rfl⟩ rfl

theorem vlenStep_iff (vlen : Int) (ext : Str) :
    (∃ w, vlenStep vlen ext = .ok w) ↔ VlenReads ext := by
  rw [vlenStep, VlenReads]
  split
  · next hv =>
    subst hv
    exact iff_of_true ⟨_, rfl⟩ (fun h => absurd h (by decide))
  · split
    · next hzvl =>
      rw [extNumber_cases]
      exact ⟨fun h _ => h, fun h => h (Or.inl hzvl)⟩
    · next hzvl =>
      split
      · next hzve =>
        rw [extNumber_cases]
        exact ⟨fun h _ => h, fun h => h (Or.inr hzve)⟩
      · next hzve => exact iff_of_true ⟨_, rfl⟩ (fun h => absurd h (not_or.mpr ⟨hzvl, hzve⟩))

theorem foldlM_vlenStep (exts : List Str) (vlen : Int) :
    (∃ w, exts.foldlM vlenStep vlen = .ok w) ↔ ∀ k ∈ exts, VlenReads k := by
  induction exts generalizing vlen with
  | nil => exact iff_of_true ⟨vlen, rfl⟩ (fun k hk => absurd hk List.not_mem_nil)
  | cons k exts ih =>
    rw [List.foldlM_cons, List.forall_mem_cons, ← vlenStep_iff vlen k]
    cases hk : vlenStep vlen k with
    | error e =>
      refine iff_of_false ?_ ?_
      · intro ⟨w, h⟩
        cases h
      · intro ⟨⟨w, h⟩, _⟩
        cases h
    | ok v =>
      have hthis : ∃ w, (Except.ok v : Except ElfErr Int) = .ok w := ⟨v, rfl⟩
      rw [and_iff_right hthis, ← ih v]
      rfl

/-! The ISA string. -/

/-- What Spike is told of a dictionary. -/
def spikeKeys (d : Exts) : List Str := d.keys.filter (· ∉ spikeExtNotAllowed)

/-- The string is printed, and read back as the extensions that Spike is told. -/
def SpikeIsaDenotes (elf : ElfFile) (d : Exts) : Prop :=
  ∃ o e, parseElfFile elf = .ok o ∧ parseMarch (printSpikeIsa o) = .ok (some e) ∧
    e.keys = spikeKeys d

theorem parseElfFile_eq {elf : ElfFile} {s : Str} {d : Exts} (hattr : readArchAttr elf = .ok s)
    (hmarch : parseMarch s = .ok (some d)) : parseElfFile elf = (do
      let vlen ← getVlen d
      return ⟨elf.elfclass, vlen, getElen d elf.elfclass, d.keys⟩) := by
  rw [parseElfFile, hattr]
  simp only [bind, Except.bind, hmarch]

theorem join_nil_eq_flatten (ws : List Str) : join [] ws = ws.flatten := by
  induction ws with
  | nil => rfl
  | cons w ws ih =>
    cases ws with
    | nil => simp
    | cons v ws =>
      rw [join_cons_cons, ih, List.nil_append]
      rfl

theorem printSpikeIsa_eq (o : CpuOptions) : printSpikeIsa o =
    ("rv".toList ++ str o.xlen) ++ printed (o.extensions.filter (· ∉ spikeExtNotAllowed)) := by
  rw [printSpikeIsa, join_nil_eq_flatten, List.flatten_cons, printed, List.flatMap_def]

/-- The keys that are read back are the ones printed exactly when none was glued. -/
theorem keys_glue {ks : List Str} (hnodup : ks.Nodup) (h : ∀ k ∈ ks, IsKey k) :
    (Dict.empty.assign ((glue none ks).map bareEntry)).keys = ks ↔ NotGlued ks := by
  have hempty : (Dict.empty : Exts).keys = [] := rfl
  have hfst : ∀ l : List Str, (l.map bareEntry).map Prod.fst = l := by
    intro l
    rw [List.map_map]
    exact List.map_id l
  rcases (glue_cases ks h).1 with ⟨hchain, heq⟩ | ⟨hchain, hlen⟩
  · refine iff_of_true ?_ hchain
    rw [Dict.keys_assign_of_nodup] <;> rw [heq, hempty, hfst, List.nil_append]
    exact hnodup
  · refine iff_of_false ?_ hchain
    intro heq
    have hle := Dict.length_keys_assign_le Dict.empty ((glue none ks).map bareEntry)
    rw [heq, hempty, List.length_nil, List.length_map] at hle
    omega

/-- The letter of the base is printed. -/
theorem spikeKeys_cons {d : Exts} {b : Char} {ks : List Str} (h : d.keys = [b] :: ks) :
    spikeKeys d = [b] :: ks.filter (· ∉ spikeExtNotAllowed) := by
  have hlong : ∀ k ∈ spikeExtNotAllowed, 1 < k.length := by decide
  have hb : [b] ∉ spikeExtNotAllowed := fun hmem => absurd (hlong _ hmem) (by simp)
  rw [spikeKeys, h, List.filter_cons_of_pos (by simpa using hb)]

theorem spikeIsaDenotes_iff {elf : ElfFile} {s : Str} {d : Exts}
    (hattr : readArchAttr elf = .ok s) (hmarch : parseMarch s = .ok (some d))
    (hclass : s.take 4 = "rv".toList ++ str elf.elfclass) :
    SpikeIsaDenotes elf d ↔ (∀ k ∈ d.keys, VlenReads k) ∧ NotGlued (spikeKeys d) := by
  obtain ⟨b, ks, hkeys, hisa, hb, hks⟩ := keys_parseMarch hmarch
  have hkept := spikeKeys_cons hkeys
  have hks' : ∀ k ∈ ks.filter (· ∉ spikeExtNotAllowed),
      IsKey k ∧ ∀ o ∈ shorthands, ¬ o <:+: k := fun k hk => hks k (List.mem_of_mem_filter hk)
  have hread : ∀ vlen, parseMarch (printSpikeIsa
      ⟨elf.elfclass, vlen, getElen d elf.elfclass, d.keys⟩) =
      .ok (some (Dict.empty.assign ((glue none (spikeKeys d)).map bareEntry))) := by
    intro vlen
    rw [printSpikeIsa_eq, ← hclass, ← spikeKeys, hkept]
    exact parseMarch_printed hisa hb hks'
  have hall : ∀ k ∈ spikeKeys d, IsKey k := by
    rw [hkept]
    intro k hk
    rcases List.mem_cons.mp hk with rfl | hk
    · exact Or.inl ⟨b, hb, rfl⟩
    · exact (hks' k hk).1
  have hnodup : (spikeKeys d).Nodup := d.nodup.filter _
  rw [← keys_glue hnodup hall, ← foldlM_vlenStep d.keys 0, ← getVlen]
  constructor
  · intro ⟨o, e, ho, he, heq⟩
    rw [parseElfFile_eq hattr hmarch] at ho
    obtain ⟨vlen, hvlen, ho⟩ := bind_ok ho
    cases ho
    rw [hread vlen] at he
    cases he
    exact ⟨⟨vlen, hvlen⟩, heq⟩
  · intro ⟨⟨vlen, hvlen⟩, heq⟩
    refine ⟨_, _, ?_, hread vlen, heq⟩
    rw [parseElfFile_eq hattr hmarch, hvlen]
    rfl

instance (ext : Str) : Decidable (VlenReads ext) := inferInstanceAs (Decidable (_ → _))

/-- A file whose attributes are a number and an arch string. -/
def archFile (s : Str) (elfclass : Nat) : ElfFile := ⟨"a.out".toList, [none, some s], elfclass⟩

def zvl128b : Str := "rv64im2p0_zvl128b1p0".toList

def zvl128bExts : Exts :=
  Dict.empty.assign [(['i'], (2, 0)), (['m'], (2, 0)), ("zvl128b".toList, (1, 0))]

theorem parseMarch_zvl128b : parseMarch zvl128b = .ok (some zvl128bExts) := rfl

theorem lettersFirst_zvl128b : LettersFirst zvl128bExts.keys := by
  unfold LettersFirst
  decide

def z1S1 : Str := "rv32i_z1_s1".toList

def z1S1Exts : Exts := Dict.empty.assign [(['i'], (2, 0)), (['z'], (1, 0)), (['s'], (1, 0))]

end ArchString
