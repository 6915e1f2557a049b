import RiscvToolchain.ArchString.Versions

/- How `parse_march` fails, on any string.

   `parse_march` means to return `None`, to return a dictionary or to raise its
   `Unrecognized ext` exception (`Documented`). What else it raises comes from the
   versions: `parse_version` looks at the character after the digits without
   asking whether there is one, and both parsers convert what stands before or after a
   `p` without asking whether it is a number. `Clean` is the grammar of the strings
   on which neither happens, up to the first character that starts no extension. -/
namespace ArchString
open Python

/-! The strings. -/

/-- A number: at least one digit, and only decimal ones. -/
def Numeral (s : Str) : Prop := s ≠ [] ∧ ∀ c ∈ s, (decimalValue c).isSome

/-- A multi-letter part: if it ends in digits they are a number, and before a `p` there is one
    more. -/
def McClean (part : Str) : Prop :=
  trailingDigits part ≠ [] → Numeral (trailingDigits part) ∧
    ∀ base, beforeDigits part = base ++ ['p'] → Numeral (trailingDigits base)

/-- An arch string from the start of an extension on. -/
inductive Clean : Str → Prop where
  | done : Clean []
  | sep {rest : Str} : Clean rest → Clean ('_' :: rest)
  /-- nothing is read after a character that starts no extension -/
  | unrecognized {c : Char} {rest : Str} : c ∉ supporttedExts → c ∉ mcExtPrefix → c ≠ '_' →
      Clean (c :: rest)
  | letter {c : Char} {rest : Str} : c ∈ supporttedExts → digits rest = [] → Clean rest →
      Clean (c :: rest)
  /-- a version that is a major only is not the end of the string -/
  | major {c d : Char} {rest m : Str} : c ∈ supporttedExts → Numeral (digits rest) →
      afterDigits rest = d :: m → d ≠ 'p' → Clean (d :: m) → Clean (c :: rest)
  | minor {c : Char} {rest m : Str} : c ∈ supporttedExts → Numeral (digits rest) →
      afterDigits rest = 'p' :: m → Numeral (digits m) → Clean (afterDigits m) → Clean (c :: rest)
  | multi {c : Char} {rest : Str} : c ∈ mcExtPrefix →
      McClean (c :: rest.takeWhile (· != '_')) → Clean (rest.dropWhile (· != '_')) →
      Clean (c :: rest)

/-- The ways `parse_march` means to end. -/
def Documented {α : Type} : Except MarchErr α → Prop
  | .ok _ => True
  | .error (.unrecognizedExt _ _) => True
  | .error _ => False

theorem toInt_of_numeral {s : Str} (h : Numeral s) : ∃ n, toInt s = .ok n := by
  obtain ⟨n, hn⟩ := Option.isSome_iff_exists.mp ((int_isSome_iff s).mpr h)
  exact ⟨n, by rw [toInt, hn]⟩

theorem toInt_of_not_numeral {s : Str} (h : ¬ Numeral s) : toInt s = .error .valueError := by
  have hn : int s = none := by
    rw [← Option.not_isSome_iff_eq_none]
    exact fun hs => h ((int_isSome_iff s).mp hs)
  rw [toInt, hn]

/-! The loop. -/

section Grammar
variable {c : Char} {rest : Str}

theorem clean_letter_bare (hc : c ∈ supporttedExts) (h : digits rest = []) :
    Clean (c :: rest) ↔ Clean rest := by
  constructor
  · intro hcl
    cases hcl with
    | sep h => exact h
    | unrecognized hno _ _ => exact absurd hc hno
    | letter _ _ h => exact h
    | major _ hnum _ _ _ => exact absurd h hnum.1
    | minor _ hnum _ _ _ => exact absurd h hnum.1
    | multi hmc _ _ => exact absurd hc (mcExtPrefix_spec hmc).2.2
  · intro hr
    exact .letter hc h hr

theorem clean_letter_end (hc : c ∈ supporttedExts) (h : digits rest ≠ [])
    (ht : afterDigits rest = []) : ¬ Clean (c :: rest) := by
  intro hcl
  cases hcl with
  | sep _ => exact absurd hc (by decide)
  | unrecognized hno _ _ => exact hno hc
  | letter _ h' _ => exact h h'
  | major _ _ ht' _ _ => rw [ht] at ht'; cases ht'
  | minor _ _ ht' _ _ => rw [ht] at ht'; cases ht'
  | multi hmc _ _ => exact (mcExtPrefix_spec hmc).2.2 hc

theorem clean_letter_digits {d : Char} {m : Str} (hc : c ∈ supporttedExts) (h : digits rest ≠ [])
    (ht : afterDigits rest = d :: m) :
    Clean (c :: rest) ↔ Numeral (digits rest) ∧
      if d = 'p' then Numeral (digits m) ∧ Clean (afterDigits m) else Clean (d :: m) := by
  constructor
  · intro hcl
    cases hcl with
    | sep _ => exact absurd hc (by decide)
    | unrecognized hno _ _ => exact absurd hc hno
    | letter _ h' _ => exact absurd h' h
    | major _ hnum ht' hd hr =>
      rw [ht] at ht'
      cases ht'
      exact ⟨hnum, by rwa [if_neg hd]⟩
    | minor _ hnum ht' hm hr =>
      rw [ht] at ht'
      cases ht'
      exact ⟨hnum, by rw [if_pos rfl]; exact ⟨hm, hr⟩⟩
    | multi hmc _ _ => exact absurd hc (mcExtPrefix_spec hmc).2.2
  · intro ⟨hnum, hr⟩
    by_cases hd : d = 'p'
    · subst hd
      rw [if_pos rfl] at hr
      exact .minor hc hnum ht hr.1 hr.2
    · rw [if_neg hd] at hr
      exact .major hc hnum ht hd hr

theorem clean_multi (hc : c ∈ mcExtPrefix) :
    Clean (c :: rest) ↔
      McClean (c :: rest.takeWhile (· != '_')) ∧ Clean (rest.dropWhile (· != '_')) := by
  obtain ⟨-, -, hno⟩ := mcExtPrefix_spec hc
  constructor
  · intro hcl
    cases hcl with
    | sep _ => exact absurd hc (by decide)
    | unrecognized _ hmc _ => exact absurd hc hmc
    | letter hs _ _ => exact absurd hs hno
    | major hs _ _ _ _ => exact absurd hs hno
    | minor hs _ _ _ _ => exact absurd hs hno
    | multi _ h hr => exact ⟨h, hr⟩
  · intro ⟨h, hr⟩
    exact .multi hc h hr

theorem mcClean_iff {part n : Str} {z : Char} (htr : trailingDigits part ≠ [])
    (hn : beforeDigits part = n ++ [z]) :
    McClean part ↔ Numeral (trailingDigits part) ∧ (z = 'p' → Numeral (trailingDigits n)) := by
  constructor
  · intro h
    obtain ⟨h₁, h₂⟩ := h htr
    exact ⟨h₁, fun hz => h₂ n (by rw [hn, hz])⟩
  · intro ⟨h₁, h₂⟩ _
    refine ⟨h₁, fun base hbase => ?_⟩
    rw [hn] at hbase
    obtain ⟨rfl, hz⟩ := List.append_inj' hbase rfl
    exact h₂ (List.singleton_inj.mp hz)

theorem clean_sep : Clean ('_' :: rest) ↔ Clean rest := by
  constructor
  · intro hcl
    cases hcl with
    | sep h => exact h
    | unrecognized _ _ hne => exact absurd rfl hne
    | letter hs _ _ => exact absurd hs (by decide)
    | major hs _ _ _ _ => exact absurd hs (by decide)
    | minor hs _ _ _ _ => exact absurd hs (by decide)
    | multi hs _ _ => exact absurd hs (by decide)
  · exact .sep

end Grammar

/-- A conversion on the way: what it converts has to be a number. -/
theorem documented_toInt_bind {α : Type} {s : Str} {f : Nat → Except MarchErr α} {P : Prop}
    (hf : ∀ n, Documented (f n) ↔ P) : Documented (toInt s >>= f) ↔ Numeral s ∧ P := by
  by_cases hs : Numeral s
  · obtain ⟨n, hn⟩ := toInt_of_numeral hs
    rw [hn, and_iff_right hs]
    exact hf n
  · rw [toInt_of_not_numeral hs]
    exact iff_of_false id (fun h => hs h.1)

section Step
variable (a rest : Str) {c : Char} (next : Nat → Str → Nat → Nat → Except MarchErr Exts)
  (ih : ∀ b u name M m, a ++ c :: rest = b ++ u → u.length ≤ rest.length →
    (Documented (next b.length name M m) ↔ Clean u))

include ih in
theorem documented_letter (hc : c ∈ supporttedExts) :
    Documented (do
      let (i, name, M, m) ← parseVersion (a ++ c :: rest) a.length
      next i name M m) ↔ Clean (c :: rest) := by
  by_cases hdig : digits rest = []
  · rw [parseVersion_bare a rest c hdig, clean_letter_bare hc hdig]
    have := ih (a ++ [c]) rest [c] 2 0 (by simp) (Nat.le_refl _)
    rw [List.length_append] at this
    exact this
  · rw [parseVersion_digits a rest c hdig, bind_assoc]
    have hsplit := digits_append_afterDigits rest
    have hlen : (digits rest).length + (afterDigits rest).length = rest.length := by
      rw [← List.length_append, hsplit]
    cases ht : afterDigits rest with
    | nil =>
      -- the character after the digits is looked at, and there is none
      refine iff_of_false ?_ (clean_letter_end hc hdig ht)
      intro h
      exact ((documented_toInt_bind (P := False) (fun _ => iff_of_false id id)).mp h).2
    | cons d m =>
      rw [clean_letter_digits hc hdig ht]
      rw [ht] at hsplit hlen
      refine documented_toInt_bind fun M => ?_
      rw [show charAt (d :: m) 0 = pure d from rfl, pure_bind]
      by_cases hd : d = 'p'
      · subst hd
        rw [if_pos rfl, if_pos BEq.rfl, bind_assoc, List.tail_cons]
        refine documented_toInt_bind fun n => ?_
        have hsplit' := digits_append_afterDigits m
        have hlen' : (digits m).length + (afterDigits m).length = m.length := by
          rw [← List.length_append, hsplit']
        have hrest : rest = digits rest ++ 'p' :: (digits m ++ afterDigits m) := by
          rw [hsplit', hsplit]
        have := ih (a ++ c :: (digits rest ++ 'p' :: digits m)) (afterDigits m) [c] M n
          ((congrArg (a ++ c :: ·) hrest).trans (by simp)) (by simp at hlen; omega)
        rw [show (a ++ c :: (digits rest ++ 'p' :: digits m)).length =
          a.length + 1 + (digits rest).length + 1 + (digits m).length by simp; omega] at this
        exact this
      · rw [if_neg hd, if_neg (by rw [beq_iff_eq]; exact hd)]
        have := ih (a ++ c :: digits rest) (d :: m) [c] M 0
          ((congrArg (a ++ c :: ·) hsplit.symm).trans (by simp)) (by omega)
        rw [show (a ++ c :: digits rest).length = a.length + 1 + (digits rest).length by
          simp; omega] at this
        exact this

include ih in
theorem documented_multi (hc : c ∈ mcExtPrefix) :
    Documented (do
      let (i, name, M, m) ← parseMcExt (a ++ c :: rest) a.length
      next i name M m) ↔ Clean (c :: rest) := by
  obtain ⟨hd, hp, -⟩ := mcExtPrefix_spec hc
  rw [clean_multi hc]
  obtain ⟨l, hl⟩ : ∃ l, l = rest.takeWhile (· != '_') := ⟨_, rfl⟩
  obtain ⟨t, ht⟩ : ∃ t, t = rest.dropWhile (· != '_') := ⟨_, rfl⟩
  have hrest : rest = l ++ t := by rw [hl, ht, List.takeWhile_append_dropWhile]
  have hsep : '_' ∉ c :: l := by
    rw [hl, List.mem_cons, not_or]
    refine ⟨fun h => absurd (h ▸ hc) (by decide), fun h => ?_⟩
    simpa using List.mem_takeWhile_imp h
  have htail : t = [] ∨ ∃ u, t = '_' :: u := by
    cases htc : t with
    | nil => exact Or.inl rfl
    | cons x u =>
      have hx := List.head?_dropWhile_not (· != '_') rest
      rw [← ht, htc] at hx
      have hx : x = '_' := by simpa using hx
      exact Or.inr ⟨u, by rw [hx]⟩
  have hword : a ++ c :: rest = a ++ (c :: l ++ t) := by rw [hrest, List.cons_append]
  have hgo : ∀ name M m, Documented (next (a.length + (c :: l).length) name M m) ↔ Clean t := by
    intro name M m
    rw [← List.length_append]
    exact ih (a ++ c :: l) t name M m (by rw [hrest]; simp) (by rw [hrest]; simp)
  rw [← hl, ← ht, hword]
  by_cases htr : trailingDigits (c :: l) = []
  · -- no version, and so no conversion that could fail
    rw [parseMcExt_plain a t hd hsep htail htr]
    refine (hgo (c :: l) 0 0).trans ?_
    simp [McClean, htr]
  · obtain ⟨n, z, hn, hz⟩ := exists_beforeDigits (l := l) hd
    rw [parseMcExt_digits a t hd hp hsep htail htr hn hz, bind_assoc, mcClean_iff htr hn, and_assoc]
    refine documented_toInt_bind fun M => ?_
    by_cases hzp : z = 'p'
    · rw [if_pos (by rw [beq_iff_eq]; exact hzp), bind_assoc, forall_prop_of_true hzp]
      exact documented_toInt_bind fun M' => hgo (beforeDigits n) M' M
    · rw [if_neg (by rw [beq_iff_eq]; exact hzp), pure_bind, forall_prop_of_false hzp, true_and]
      exact hgo (n ++ [z]) M 0

end Step

/-- By induction on the fuel: each pass reads what one rule of the grammar reads. -/
theorem parseExts_documented_iff : ∀ (fuel : Nat) (a t : Str) (exts : Exts), t.length ≤ fuel →
    (Documented (parseExts (a ++ t) fuel a.length exts) ↔ Clean t)
  | 0, a, t, exts, hfuel => by
    obtain rfl : t = [] := List.length_eq_zero_iff.mp (by omega)
    rw [parseExts, if_neg (by simp)]
    exact iff_of_true trivial .done
  | fuel + 1, a, [], exts, _ => by
    rw [parseExts]
    simp only [List.append_nil, List.getElem?_eq_none (Nat.le_refl _)]
    exact iff_of_true trivial .done
  | fuel + 1, a, c :: rest, exts, hfuel => by
    have ih : ∀ b u exts', a ++ c :: rest = b ++ u → u.length ≤ rest.length →
        (Documented (parseExts (a ++ c :: rest) fuel b.length exts') ↔ Clean u) := by
      intro b u exts' hbu hu
      rw [hbu]
      exact parseExts_documented_iff fuel b u exts' (by simp at hfuel; omega)
    have hget : (a ++ c :: rest)[a.length]? = some c := by simp
    rw [parseExts]
    simp only [hget]
    by_cases hsupp : c ∈ supporttedExts
    · rw [if_pos hsupp]
      exact documented_letter a rest
        (fun i name M m => parseExts (a ++ c :: rest) fuel i (exts.set name (M, m)))
        (fun b u name M m => ih b u (exts.set name (M, m))) hsupp
    · rw [if_neg hsupp]
      by_cases hmc : c ∈ mcExtPrefix
      · rw [if_pos hmc]
        exact documented_multi a rest
          (fun i name M m => parseExts (a ++ c :: rest) fuel i (exts.set name (M, m)))
          (fun b u name M m => ih b u (exts.set name (M, m))) hmc
      · rw [if_neg hmc]
        by_cases hsep : c = '_'
        · subst hsep
          rw [if_pos rfl, clean_sep]
          have := ih (a ++ ['_']) rest exts (by simp) (Nat.le_refl _)
          rw [List.length_append] at this
          exact this
        · rw [if_neg hsep]
          exact iff_of_true trivial (.unrecognized hsupp hmc hsep)

/-! `parse_march`. -/

/-- The ends of `parse_march` that it means: `None` on a short string or an unknown base, a
    dictionary, or its own exception. -/
def DocumentedEnd (march : Str) : Prop :=
  (parseMarch march = .ok none ∧ (march.length < 5 ∨ (expandG march).take 5 ∉ baseIsas)) ∨
    (∃ exts, parseMarch march = .ok (some exts)) ∨
    ∃ c extStr, parseMarch march = .error (.unrecognizedExt c extStr)

theorem documentedEnd_iff_loop {march : Str} (hlen : ¬ march.length < 5)
    (hbase : (expandG march).take 5 ∈ baseIsas) :
    DocumentedEnd march ↔ Documented (parseExts ((expandG march).drop 4)
      ((expandG march).drop 4).length 0 Dict.empty) := by
  have hrun : parseMarch march = (parseExts ((expandG march).drop 4)
      ((expandG march).drop 4).length 0 Dict.empty >>= fun exts => pure (some exts)) := by
    simp only [parseMarch, if_neg hlen, if_pos hbase]
  rw [DocumentedEnd, hrun]
  cases parseExts ((expandG march).drop 4) ((expandG march).drop 4).length 0 Dict.empty with
  | ok exts => exact iff_of_true (Or.inr (Or.inl ⟨exts, rfl⟩)) trivial
  | error e =>
    simp only [bind, Except.bind]
    cases e <;> simp [Documented]

/-- `parse_march` ends as it means to exactly on the strings whose versions it can read. -/
theorem parseMarch_documented_iff (march : Str) :
    DocumentedEnd march ↔ march.length < 5 ∨ (expandG march).take 5 ∉ baseIsas ∨
      Clean ((expandG march).drop 4) := by
  by_cases hlen : march.length < 5
  · refine iff_of_true (Or.inl ⟨?_, Or.inl hlen⟩) (Or.inl hlen)
    rw [parseMarch, if_pos hlen]
  · by_cases hbase : (expandG march).take 5 ∈ baseIsas
    · rw [documentedEnd_iff_loop hlen hbase]
      have := parseExts_documented_iff _ [] ((expandG march).drop 4) Dict.empty (Nat.le_refl _)
      simpa [hlen, hbase] using this
    · refine iff_of_true (Or.inl ⟨?_, Or.inr hbase⟩) (Or.inr (Or.inl hbase))
      simp only [parseMarch, if_neg hlen, if_neg hbase]

/-- `rv32i2`: the digits of the version end the string, and `parse_version` reads on. -/
theorem not_documentedEnd : ¬ DocumentedEnd "rv32i2".toList := by
  have h : parseMarch "rv32i2".toList = .error .indexError := by rfl
  rw [DocumentedEnd, h]
  simp

end ArchString
