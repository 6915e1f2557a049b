import RiscvToolchain.Python.Str

/- `scripts/testsuite-filter`: the class `Arch`, the second reader of arch strings.
   Its scanner knows no versions: a character that starts no multi-letter name and
   is no `_` is an extension of its own. The index `i` of the source is the
   suffix `arch[i:]` here. -/
namespace ArchString
open Python

structure Arch where
  baseArch : Str
  ext : List Str
  deriving DecidableEq, Repr

/-- The alternatives of `(32|64|128)`. -/
def xlens : List Str := ["32".toList, "64".toList, "128".toList]

/-- `re.sub("^rv(32|64|128)g", 'rv\\1imafd', arch)`. -/
def expandStartG (arch : Str) : Str :=
  match xlens.find? (fun x => startsWith ("rv".toList ++ (x ++ ['g'])) arch) with
  | some x => "rv".toList ++ (x ++ ("imafd".toList ++ arch.drop (2 + (x.length + 1))))
  | none => arch

/-- `re.match('rv(32|64|128)', arch)` as its `group(0)`. -/
def matchBase (arch : Str) : Option Str :=
  (xlens.find? (fun x => startsWith ("rv".toList ++ x) arch)).map ("rv".toList ++ ·)

/-- `ext in ['x', 's', 'z']`. -/
def startsName (c : Char) : Bool := c == 'x' || c == 's' || c == 'z'

/-- `arch[i] != '_'`. -/
def inPart (c : Char) : Bool := c != '_'

/-- The loop `while i < len(arch)` from the suffix on; the suffix's length is fuel enough. -/
def scanExt : Nat → Str → List Str
  | 0, _ => []
  | _ + 1, [] => []
  | fuel + 1, c :: s =>
    if startsName c then (c :: s.takeWhile inPart) :: scanExt fuel (s.dropWhile inPart)
    else if c = '_' then scanExt fuel s
    else [c] :: scanExt fuel s

/-- `Arch(arch)`; `none` is the `AttributeError` of `m.group(0)` on an unknown base. -/
def Arch.init (arch : Str) : Option Arch :=
  let arch := expandStartG arch
  (matchBase arch).map fun base =>
    { baseArch := base, ext := scanExt arch.length (arch.drop base.length) }

/-! The scanner. -/

theorem length_dropWhile_le (p : Char → Bool) (s : Str) : (s.dropWhile p).length ≤ s.length :=
  (List.dropWhile_sublist p).length_le

theorem scanExt_fuel : ∀ (fuel fuel' : Nat) (s : Str), s.length ≤ fuel → s.length ≤ fuel' →
    scanExt fuel s = scanExt fuel' s
  | 0, fuel', s, h, _ => by
    obtain rfl := List.length_eq_zero_iff.mp (Nat.le_zero.mp h)
    cases fuel' <;> rfl
  | fuel + 1, 0, s, _, h => by
    obtain rfl := List.length_eq_zero_iff.mp (Nat.le_zero.mp h)
    rfl
  | fuel + 1, fuel' + 1, [], _, _ => rfl
  | fuel + 1, fuel' + 1, c :: s, h, h' => by
    simp only [List.length_cons, Nat.add_le_add_iff_right] at h h'
    have hdrop := length_dropWhile_le inPart s
    rw [scanExt, scanExt, scanExt_fuel fuel fuel' s h h',
      scanExt_fuel fuel fuel' (s.dropWhile inPart) (by omega) (by omega)]

/-- The extensions of a string. -/
def exts (s : Str) : List Str := scanExt s.length s

theorem scanExt_eq_exts {fuel : Nat} {s : Str} (h : s.length ≤ fuel) : scanExt fuel s = exts s :=
  scanExt_fuel fuel s.length s h (Nat.le_refl _)

theorem exts_name {c : Char} (s : Str) (h : startsName c = true) :
    exts (c :: s) = (c :: s.takeWhile inPart) :: exts (s.dropWhile inPart) := by
  rw [exts, List.length_cons, scanExt, if_pos h, scanExt_eq_exts (length_dropWhile_le _ _)]

theorem exts_sep (s : Str) : exts ('_' :: s) = exts s := by
  rw [exts, List.length_cons, scanExt, if_neg (by decide), if_pos rfl]
  rfl

theorem exts_letter {c : Char} (s : Str) (h : startsName c = false) (hsep : c ≠ '_') :
    exts (c :: s) = [c] :: exts s := by
  rw [exts, List.length_cons, scanExt, if_neg (by simp [h]), if_neg hsep]
  rfl

/-- The scan, case by case. -/
theorem exts_induction {P : Str → Prop} (nil : P [])
    (name : ∀ c s, startsName c = true → P (s.dropWhile inPart) → P (c :: s))
    (sep : ∀ s, P s → P ('_' :: s))
    (letter : ∀ c s, startsName c = false → c ≠ '_' → P s → P (c :: s)) : ∀ s, P s := by
  have key : ∀ (n : Nat) (s : Str), s.length ≤ n → P s := by
    intro n
    induction n with
    | zero =>
      intro s h
      obtain rfl := List.length_eq_zero_iff.mp (Nat.le_zero.mp h)
      exact nil
    | succ n ih =>
      intro s h
      cases s with
      | nil => exact nil
      | cons c s =>
        have hs : s.length ≤ n := by simpa using h
        have hdrop := length_dropWhile_le inPart s
        by_cases hc : startsName c = true
        · exact name c s hc (ih _ (by omega))
        · by_cases hu : c = '_'
          · subst hu; exact sep s (ih s hs)
          · exact letter c s (by simpa using hc) hu (ih s hs)
  exact fun s => key s.length s (Nat.le_refl _)

/-! The parts between the separators. -/

/-- The part at the head of a string, and what follows it. -/
theorem split_takeWhile (s : Str) :
    (s.dropWhile inPart = [] ∧ split '_' s = [s.takeWhile inPart]) ∨
    ∃ u, s.dropWhile inPart = '_' :: u ∧ split '_' s = s.takeWhile inPart :: split '_' u := by
  have hs : s.takeWhile inPart ++ s.dropWhile inPart = s := List.takeWhile_append_dropWhile
  have hno : '_' ∉ s.takeWhile inPart := by
    intro h
    exact absurd (List.mem_takeWhile_imp h) (by decide)
  cases hd : s.dropWhile inPart with
  | nil =>
    rw [hd, List.append_nil] at hs
    refine Or.inl ⟨rfl, ?_⟩
    rw [hs] at hno ⊢
    exact split_of_not_mem hno
  | cons c u =>
    have hc : inPart c = false := by
      have := List.head?_dropWhile_not inPart s
      rw [hd] at this
      simpa using this
    obtain rfl : c = '_' := by simpa [inPart] using hc
    refine Or.inr ⟨u, rfl, ?_⟩
    rw [hd] at hs
    conv_lhs => rw [← hs]
    exact split_append hno

theorem split_cons_ne {c x : Char} {s : Str} (h : x ≠ c) :
    ∃ w ws, split c s = w :: ws ∧ split c (x :: s) = (x :: w) :: ws := by
  cases hs : split c s with
  | nil => exact absurd hs (split_ne_nil c s)
  | cons w ws => exact ⟨w, ws, rfl, by rw [split, if_neg h, hs]⟩

/-- The extensions of one part: its letters, up to where a multi-letter name starts, and
    this name, which runs to the end. -/
def partExts (w : Str) : List Str :=
  (w.takeWhile fun c => !startsName c).map ([·]) ++
    match w.dropWhile fun c => !startsName c with
    | [] => []
    | name => [name]

theorem partExts_name {c : Char} {w : Str} (h : startsName c = true) :
    partExts (c :: w) = [c :: w] := by
  simp [partExts, h]

theorem partExts_letter {c : Char} {w : Str} (h : startsName c = false) :
    partExts (c :: w) = [c] :: partExts w := by
  simp [partExts, h]

/-- The scan reads the parts one after the other. -/
theorem exts_eq_flatMap (s : Str) : exts s = (split '_' s).flatMap partExts := by
  induction s using exts_induction with
  | nil => rfl
  | name c s hc ih =>
    have hsep : c ≠ '_' := by
      intro h
      subst h
      exact absurd hc (by decide)
    obtain ⟨w, ws, hs, hcs⟩ := split_cons_ne (s := s) hsep
    rw [exts_name s hc, ih, hcs, List.flatMap_cons, partExts_name hc]
    rcases split_takeWhile s with ⟨hd, hsplit⟩ | ⟨u, hd, hsplit⟩
    · rw [hsplit] at hs
      obtain ⟨rfl, rfl⟩ := List.cons.inj hs
      rw [hd]
      rfl
    · rw [hsplit] at hs
      obtain ⟨rfl, rfl⟩ := List.cons.inj hs
      rw [hd, split, if_pos rfl]
      rfl
  | sep s ih =>
    rw [exts_sep, ih, split, if_pos rfl]
    rfl
  | letter c s hc hsep ih =>
    obtain ⟨w, ws, hs, hcs⟩ := split_cons_ne (s := s) hsep
    rw [exts_letter s hc hsep, ih, hcs, hs, List.flatMap_cons, List.flatMap_cons, partExts_letter hc]
    rfl

/-! What `Arch` reads. -/

/-- What `Arch` reads after the base: the shorthand expanded at its head. -/
def expandHead : Str → Str
  | 'g' :: s => "imafd".toList ++ s
  | s => s

/-- The bases `Arch` knows. -/
def archBases : List Str := xlens.map ("rv".toList ++ ·)

theorem mem_archBases_cases {base : Str} (hb : base ∈ archBases) :
    base = "rv32".toList ∨ base = "rv64".toList ∨ base = "rv128".toList := by
  simpa [archBases, xlens] using hb

theorem expandStartG_base {base : Str} (hb : base ∈ archBases) (s : Str) :
    expandStartG (base ++ s) = base ++ expandHead s := by
  cases s with
  | nil => rcases mem_archBases_cases hb with rfl | rfl | rfl <;> rfl
  | cons c s =>
    by_cases hc : c = 'g'
    · subst hc
      rcases mem_archBases_cases hb with rfl | rfl | rfl <;> rfl
    · have hhead : expandHead (c :: s) = c :: s := by
        unfold expandHead
        split
        · rename_i t he
          exact absurd (List.cons.inj he).1 hc
        · rfl
      rw [hhead]
      rcases mem_archBases_cases hb with rfl | rfl | rfl <;>
        simp [expandStartG, xlens, startsWith, List.isPrefixOf, Ne.symm hc]

theorem matchBase_base {base : Str} (hb : base ∈ archBases) (s : Str) :
    matchBase (base ++ s) = some base := by
  rcases mem_archBases_cases hb with rfl | rfl | rfl <;> rfl

theorem arch_init {base : Str} (hb : base ∈ archBases) (s : Str) :
    Arch.init (base ++ s) = some ⟨base, exts (expandHead s)⟩ := by
  simp only [Arch.init, expandStartG_base hb, matchBase_base hb, Option.map_some,
    List.drop_left]
  rw [scanExt_eq_exts (by simp)]

end ArchString
