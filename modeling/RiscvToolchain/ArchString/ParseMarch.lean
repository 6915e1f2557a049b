import RiscvToolchain.Python.Str
import RiscvToolchain.Python.Dict
import RiscvToolchain.Python.Raises

/- `scripts/march-to-cpu-opt`: the parser of an arch string.

   Correspondence (Python ↔ Lean):
     `parse_mc_ext`   ↔ `parseMcExt`
     `parse_version`  ↔ `parseVersion`
     `parse_march`    ↔ `parseMarch`, its `while idx < extstrlens` loop `parseExts`
   The two index loops of `parse_mc_ext` run backwards over digits
   (`backOverDigits`), those of `parse_version` forwards (`digitsEnd`). Every
   exception the code can raise is an error of `MarchErr`; `timeout` is no
   exception of the code but the loop running out of fuel, which never happens
   (`parseExts_fuel`). -/
namespace ArchString
open Python

inductive MarchErr where
  | indexError
  | valueError
  | unrecognizedExt (c : Char) (extStr : Str)
  | timeout
  deriving DecidableEq, Repr

abbrev Exts := Dict Str (Nat × Nat)

/-- `SUPPORTTED_EXTS`. -/
def supporttedExts : Str := "iemafdcbvph".toList

/-- `MC_EXT_PREFIX`. -/
def mcExtPrefix : Str := "zsx".toList

/-- `s[i]`. -/
def charAt (s : Str) (i : Nat) : Except MarchErr Char :=
  match s[i]? with
  | some c => .ok c
  | none => .error .indexError

/-- `int(s)`. -/
def toInt (s : Str) : Except MarchErr Nat :=
  match int s with
  | some n => .ok n
  | none => .error .valueError

/-- `while s[v].isdigit() and v > idx: v -= 1`. -/
def backOverDigits (s : Str) (idx : Nat) : Nat → Except MarchErr Nat
  | 0 => do
    let _ ← charAt s 0
    return 0
  | v + 1 => do
    if isdigit (← charAt s (v + 1)) && decide (idx < v + 1) then backOverDigits s idx v
    else return v + 1

/-- `while v < strlen and s[v].isdigit(): v += 1`. -/
def digitsEnd (s : Str) (v : Nat) : Nat := v + ((s.drop v).takeWhile isdigit).length

/-- The end of the part that starts at `idx`: the next `_`, or the end of the string. -/
def partEnd (extStr : Str) (idx : Nat) : Nat :=
  match find '_' (extStr.drop (idx + 1)) with
  | none => extStr.length
  | some e => e + idx + 1

/-- A multi-letter extension at `idx`: the index after it, its name, major and minor. -/
def parseMcExt (extStr : Str) (idx : Nat) : Except MarchErr (Nat × Str × Nat × Nat) := do
  let endIdx := partEnd extStr idx
  if isdigit (← charAt extStr (endIdx - 1)) then
    let vIdx ← backOverDigits extStr idx (endIdx - 1)
    let major ← toInt (slice extStr (vIdx + 1) endIdx)
    if (← charAt extStr vIdx) == 'p' then
      -- what was read as the major is the minor; `vIdx` is not 0 here, since the
      -- caller stands on one of `mcExtPrefix` at `idx ≤ vIdx`
      let minor := major
      let majorVIdx ← backOverDigits extStr idx (vIdx - 1)
      let major ← toInt (slice extStr (majorVIdx + 1) vIdx)
      return (endIdx, slice extStr idx (majorVIdx + 1), major, minor)
    else return (endIdx, slice extStr idx (vIdx + 1), major, 0)
  else return (endIdx, slice extStr idx endIdx, 0, 0)

/-- A single-letter extension at `idx`. -/
def parseVersion (extStr : Str) (idx : Nat) : Except MarchErr (Nat × Str × Nat × Nat) := do
  let letter ← charAt extStr idx
  match extStr[idx + 1]? with
  | none => return (idx + 1, [letter], 2, 0)
  | some d =>
    if isdigit d then
      let vIdx := digitsEnd extStr (idx + 1)
      let major ← toInt (slice extStr (idx + 1) vIdx)
      if (← charAt extStr vIdx) == 'p' then
        let minorVIdx := digitsEnd extStr (vIdx + 1)
        let minor ← toInt (slice extStr (vIdx + 1) minorVIdx)
        return (minorVIdx, [letter], major, minor)
      else return (vIdx, [letter], major, 0)
    else return (idx + 1, [letter], 2, 0)

/-- The loop over the extensions, from `idx` on. -/
def parseExts (extStr : Str) : Nat → Nat → Exts → Except MarchErr Exts
  | 0, idx, exts => if idx < extStr.length then .error .timeout else .ok exts
  | fuel + 1, idx, exts =>
    match extStr[idx]? with
    | none => .ok exts
    | some c =>
      if c ∈ supporttedExts then do
        let (next, name, major, minor) ← parseVersion extStr idx
        parseExts extStr fuel next (exts.set name (major, minor))
      else if c ∈ mcExtPrefix then do
        let (next, name, major, minor) ← parseMcExt extStr idx
        parseExts extStr fuel next (exts.set name (major, minor))
      else if c = '_' then parseExts extStr fuel (idx + 1) exts
      else .error (.unrecognizedExt c extStr)

/-- `march.replace("rv64g", "rv64imafd").replace("rv32g", "rv32imafd")`. -/
def expandG (march : Str) : Str :=
  replace "rv32g".toList "rv32imafd".toList (replace "rv64g".toList "rv64imafd".toList march)

def baseIsas : List Str := ["rv64i".toList, "rv32i".toList, "rv32e".toList]

/-- `parse_march`; `none` is the `None` it returns on a short string or an unknown base. -/
def parseMarch (march : Str) : Except MarchErr (Option Exts) :=
  if march.length < 5 then .ok none
  else
    let march := expandG march
    if march.take 5 ∈ baseIsas then do
      let extStr := march.drop 4
      let exts ← parseExts extStr extStr.length 0 Dict.empty
      return some exts
    else .ok none

/-! What one pass of the loop consumes. -/

theorem charAt_ok {s : Str} {i : Nat} {c : Char} (h : charAt s i = .ok c) : s[i]? = some c := by
  unfold charAt at h
  split at h
  · cases h; assumption
  · cases h

/-- The backward loop stops on a character that is no digit, if it starts after one. -/
theorem backOverDigits_ok {s : Str} {idx : Nat} {c : Char} (hc : s[idx]? = some c)
    (hd : isdigit c = false) : ∀ (v : Nat) {q : Nat}, idx ≤ v → backOverDigits s idx v = .ok q →
    idx ≤ q ∧ q ≤ v ∧ ∃ x, s[q]? = some x ∧ isdigit x = false
  | 0, q, hv, h => by
    obtain ⟨x, hx, hq⟩ := bind_ok h
    cases hq
    obtain rfl : idx = 0 := by omega
    exact ⟨Nat.le_refl _, Nat.le_refl _, c, hc, hd⟩
  | v + 1, q, hv, h => by
    obtain ⟨x, hx, hq⟩ := bind_ok h
    have hx := charAt_ok hx
    split at hq
    · rename_i hcond
      have hlt : idx < v + 1 := by simpa using (Bool.and_eq_true_iff.mp hcond).2
      obtain ⟨h₁, h₂, hrest⟩ := backOverDigits_ok hc hd v (by omega) hq
      exact ⟨h₁, by omega, hrest⟩
    · rename_i hcond
      cases hq
      refine ⟨hv, Nat.le_refl _, x, hx, ?_⟩
      by_cases hlt : idx < v + 1
      · simpa [hlt] using hcond
      · obtain rfl : idx = v + 1 := by omega
        rw [hc] at hx
        cases hx
        exact hd

theorem parseVersion_ok {s : Str} {idx next : Nat} {name : Str} {v : Nat × Nat} {c : Char}
    (hc : s[idx]? = some c) (h : parseVersion s idx = .ok (next, name, v)) :
    name = [c] ∧ idx < next ∧
      ((∀ d ∈ s[idx + 1]?, isdigit d = false) → next = idx + 1) := by
  obtain ⟨c', hc', h⟩ := bind_ok h
  have hc' := charAt_ok hc'
  rw [hc] at hc'
  cases hc'
  split at h
  · cases h
    exact ⟨rfl, by omega, fun _ => rfl⟩
  · rename_i d hd
    split at h
    · rename_i hdig
      obtain ⟨M, -, h⟩ := bind_ok h
      obtain ⟨p, -, h⟩ := bind_ok h
      refine ⟨?_, ?_, fun hno => absurd (hno d (by rw [hd]; rfl)) (by rw [hdig]; decide)⟩
      · split at h
        · obtain ⟨m, -, h⟩ := bind_ok h
          cases h; rfl
        · cases h; rfl
      · split at h
        · obtain ⟨m, -, h⟩ := bind_ok h
          cases h
          simp only [digitsEnd]; omega
        · cases h
          simp only [digitsEnd]; omega
    · cases h
      exact ⟨rfl, by omega, fun _ => rfl⟩

theorem lt_partEnd {s : Str} {idx : Nat} (h : idx < s.length) : idx < partEnd s idx := by
  unfold partEnd
  split <;> omega

/-- A multi-letter name is a slice from `idx` that ends in no digit, and the whole part if
    the part ends in none. -/
theorem parseMcExt_ok {s : Str} {idx next : Nat} {name : Str} {v : Nat × Nat} {c : Char}
    (hc : s[idx]? = some c) (hd : isdigit c = false) (hp : c ≠ 'p')
    (h : parseMcExt s idx = .ok (next, name, v)) :
    next = partEnd s idx ∧
      (∃ q x, idx ≤ q ∧ q < partEnd s idx ∧ name = slice s idx (q + 1) ∧ s[q]? = some x ∧
        isdigit x = false) ∧
      ((∀ x ∈ s[partEnd s idx - 1]?, isdigit x = false) → name = slice s idx (partEnd s idx)) := by
  have hlt : idx < partEnd s idx := lt_partEnd (List.getElem?_eq_some_iff.mp hc).1
  obtain ⟨z, hz, h⟩ := bind_ok h
  have hz := charAt_ok hz
  split at h
  · rename_i hdig
    have hno : ¬ ∀ x ∈ s[partEnd s idx - 1]?, isdigit x = false := by
      intro hall
      have := hall z (by rw [hz]; rfl)
      rw [hdig] at this
      cases this
    obtain ⟨q, hq, h⟩ := bind_ok h
    obtain ⟨M, -, h⟩ := bind_ok h
    obtain ⟨x, hx, h⟩ := bind_ok h
    have hx := charAt_ok hx
    obtain ⟨hq₁, hq₂, y, hy, hyd⟩ := backOverDigits_ok hc hd _ (by omega) hq
    rw [hx] at hy
    cases hy
    split at h
    · rename_i hxp
      obtain ⟨q', hq', h⟩ := bind_ok h
      obtain ⟨m, -, h⟩ := bind_ok h
      cases h
      have hne : idx ≠ q := by
        intro he
        subst he
        rw [hc] at hx
        cases hx
        exact hp (eq_of_beq hxp)
      obtain ⟨h₁, h₂, y, hy, hyd'⟩ := backOverDigits_ok hc hd _ (by omega) hq'
      exact ⟨rfl, ⟨q', y, h₁, by omega, rfl, hy, hyd'⟩, fun hall => absurd hall hno⟩
    · cases h
      exact ⟨rfl, ⟨q, x, hq₁, by omega, rfl, hx, hyd⟩, fun hall => absurd hall hno⟩
  · rename_i hdig
    cases h
    refine ⟨rfl, ⟨partEnd s idx - 1, z, by omega, by omega, ?_, hz, by simpa using hdig⟩,
      fun _ => rfl⟩
    rw [Nat.sub_add_cancel (by omega)]

/-- The letters a multi-letter name starts with are no digits, no `p` and no single-letter
    extensions. -/
theorem mcExtPrefix_spec {c : Char} (h : c ∈ mcExtPrefix) :
    isdigit c = false ∧ c ≠ 'p' ∧ c ∉ supporttedExts := by
  have hc : c ∈ ['z', 's', 'x'] := h
  simp only [List.mem_cons, List.not_mem_nil, or_false] at hc
  rcases hc with rfl | rfl | rfl <;> decide

/-! The loop ends: the fuel `parseMarch` gives it is enough. -/

theorem bind_ne_timeout {α β : Type} {x : Except MarchErr α} {f : α → Except MarchErr β}
    (hx : x ≠ .error .timeout) (hf : ∀ a, x = .ok a → f a ≠ .error .timeout) :
    (x >>= f) ≠ .error .timeout := by
  cases x with
  | error e => exact fun h => hx (by cases h; rfl)
  | ok a => exact hf a rfl

theorem charAt_ne_timeout (s : Str) (i : Nat) : charAt s i ≠ .error .timeout := by
  unfold charAt
  split <;> simp

theorem toInt_ne_timeout (s : Str) : toInt s ≠ .error .timeout := by
  unfold toInt
  split <;> simp

theorem backOverDigits_ne_timeout (s : Str) (idx : Nat) : ∀ v,
    backOverDigits s idx v ≠ .error .timeout
  | 0 => bind_ne_timeout (charAt_ne_timeout s 0) (fun _ _ => by simp [pure, Except.pure])
  | v + 1 => by
    apply bind_ne_timeout (charAt_ne_timeout s (v + 1))
    intro c _
    split
    · exact backOverDigits_ne_timeout s idx v
    · simp [pure, Except.pure]

theorem parseMcExt_ne_timeout (s : Str) (idx : Nat) : parseMcExt s idx ≠ .error .timeout := by
  apply bind_ne_timeout (charAt_ne_timeout _ _)
  intro z _
  split
  · apply bind_ne_timeout (backOverDigits_ne_timeout _ _ _)
    intro q _
    apply bind_ne_timeout (toInt_ne_timeout _)
    intro M _
    apply bind_ne_timeout (charAt_ne_timeout _ _)
    intro x _
    split
    · apply bind_ne_timeout (backOverDigits_ne_timeout _ _ _)
      intro q' _
      apply bind_ne_timeout (toInt_ne_timeout _)
      intro m _
      simp [pure, Except.pure]
    · simp [pure, Except.pure]
  · simp [pure, Except.pure]

theorem parseVersion_ne_timeout (s : Str) (idx : Nat) : parseVersion s idx ≠ .error .timeout := by
  apply bind_ne_timeout (charAt_ne_timeout _ _)
  intro c _
  split
  · simp [pure, Except.pure]
  · split
    · apply bind_ne_timeout (toInt_ne_timeout _)
      intro M _
      apply bind_ne_timeout (charAt_ne_timeout _ _)
      intro x _
      split
      · apply bind_ne_timeout (toInt_ne_timeout _)
        intro m _
        simp [pure, Except.pure]
      · simp [pure, Except.pure]
    · simp [pure, Except.pure]

theorem parseExts_fuel (extStr : Str) : ∀ (fuel idx : Nat) (exts : Exts),
    extStr.length - idx ≤ fuel → parseExts extStr fuel idx exts ≠ .error .timeout
  | 0, idx, exts, hfuel => by
    rw [parseExts, if_neg (by omega)]
    simp
  | fuel + 1, idx, exts, hfuel => by
    rw [parseExts]
    split
    · simp
    · rename_i c hc
      have hlt : idx < extStr.length := (List.getElem?_eq_some_iff.mp hc).1
      split
      · apply bind_ne_timeout (parseVersion_ne_timeout _ _)
        intro ⟨next, name, v⟩ hv
        have hnext := (parseVersion_ok hc hv).2.1
        exact parseExts_fuel extStr fuel next _ (by omega)
      · split
        · rename_i hmc
          apply bind_ne_timeout (parseMcExt_ne_timeout _ _)
          intro ⟨next, name, v⟩ hv
          obtain ⟨hd, hp, -⟩ := mcExtPrefix_spec hmc
          have hnext := (parseMcExt_ok hc hd hp hv).1
          have hpart := lt_partEnd hlt
          exact parseExts_fuel extStr fuel next _ (by omega)
        · split
          · exact parseExts_fuel extStr fuel (idx + 1) exts (by omega)
          · simp

end ArchString
