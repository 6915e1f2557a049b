import RiscvToolchain.ArchString.ParseMarch
import RiscvToolchain.ArchString.Arch

/- The two readers of arch strings agree on what carries no version.

   On a string `parseMarch` accepts, `Arch` has the same base, and its extensions
   are the keys of the dictionary exactly when the shorthand `g` stands at the
   start of the string only (`parse_march` replaces it everywhere, `Arch` at the
   start) and no part between two `_` holds a version: no digit before the part's
   first multi-letter name, none at its end (`arch_agrees_iff`).

   The keys never end in a digit (`mem_keys_parseExts`), and on a string without
   versions both loops take the same steps (`mem_keys_iff_mem_exts`). -/
namespace ArchString
open Python

def shorthands : List Str := ["rv32g".toList, "rv64g".toList]

/-- A part with no version in it. -/
def Unversioned (w : Str) : Prop :=
  (∀ c ∈ w.takeWhile (fun c => !startsName c), isdigit c = false) ∧
    ∀ c ∈ w.getLast?, isdigit c = false

/-- No extension of the list ends in a digit. -/
def NoDigitEnd (es : List Str) : Prop := ∀ e ∈ es, ∀ c ∈ e.getLast?, isdigit c = false

theorem noDigitEnd_cons {e : Str} {es : List Str} :
    NoDigitEnd (e :: es) ↔ (∀ c ∈ e.getLast?, isdigit c = false) ∧ NoDigitEnd es := by
  simp [NoDigitEnd]

/-! Versions, seen by `Arch`: the extensions of a string end in no digit when its parts are
    unversioned. -/

theorem unversioned_nil : Unversioned [] := by
  refine ⟨?_, ?_⟩ <;> simp

theorem unversioned_name {c : Char} {w : Str} (h : startsName c = true) :
    Unversioned (c :: w) ↔ ∀ x ∈ (c :: w).getLast?, isdigit x = false := by
  simp [Unversioned, h]

theorem unversioned_letter {c : Char} {w : Str} (h : startsName c = false) :
    Unversioned (c :: w) ↔ isdigit c = false ∧ Unversioned w := by
  cases w with
  | nil => simp [Unversioned, h]
  | cons x w =>
    simp only [Unversioned, List.takeWhile_cons, h, Bool.not_false, if_true,
      List.getLast?_cons_cons, List.mem_cons, forall_eq_or_imp, and_assoc]

theorem noDigitEnd_partExts (w : Str) : NoDigitEnd (partExts w) ↔ Unversioned w := by
  induction w with
  | nil => exact iff_of_true (by simp [NoDigitEnd, partExts]) unversioned_nil
  | cons c w ih =>
    cases hc : startsName c with
    | true => simp [partExts_name hc, unversioned_name hc, NoDigitEnd]
    | false => simp [partExts_letter hc, noDigitEnd_cons, unversioned_letter hc, ih]

theorem noDigitEnd_exts_iff (s : Str) :
    NoDigitEnd (exts s) ↔ ∀ w ∈ split '_' s, Unversioned w := by
  simp only [← noDigitEnd_partExts, exts_eq_flatMap, NoDigitEnd, List.mem_flatMap]
  constructor
  · intro h w hw e he
    exact h e ⟨w, hw, he⟩
  · intro h e he
    obtain ⟨w, hw, he⟩ := he
    exact h w hw e he

/-! The loop of `parseMarch`: what its keys look like, and its steps on a string without
    versions. -/

/-- The shape of a key: a name that starts with a letter the loop knows, stands in the
    string and ends in no digit. -/
structure KeyShape (extStr key : Str) : Prop where
  head : ∃ c, key.head? = some c ∧ (c ∈ supporttedExts ∨ c ∈ mcExtPrefix)
  occurs : key <:+: extStr
  last : ∀ c ∈ key.getLast?, isdigit c = false

theorem slice_infix (s : Str) (i j : Nat) : slice s i j <:+: s :=
  (List.drop_suffix i _).isInfix.trans (List.take_prefix j s).isInfix

theorem slice_succ {s : Str} {i : Nat} {c : Char} (h : s[i]? = some c) : slice s i (i + 1) = [c] := by
  obtain ⟨hi, hc⟩ := List.getElem?_eq_some_iff.mp h
  rw [slice, List.take_add_one, h]
  simp [Nat.min_eq_left (Nat.le_of_lt hi)]

theorem head?_slice {s : Str} {i j : Nat} {c : Char} (h : s[i]? = some c) (hij : i < j) :
    (slice s i j).head? = some c := by
  rw [slice, List.head?_drop, List.getElem?_take, if_pos hij, h]

theorem getLast?_slice {s : Str} {i j : Nat} {c : Char} (h : s[j]? = some c) (hij : i ≤ j) :
    (slice s i (j + 1)).getLast? = some c := by
  have hj : j < s.length := (List.getElem?_eq_some_iff.mp h).1
  have hlen : (slice s i (j + 1)).length = j + 1 - i := by
    simp [slice, Nat.min_eq_left (Nat.succ_le_of_lt hj)]
  rw [List.getLast?_eq_getElem?, hlen, slice, List.getElem?_drop, List.getElem?_take,
    if_pos (by omega), show i + (j + 1 - i - 1) = j by omega, h]

theorem supporttedExts_spec {c : Char} (h : c ∈ supporttedExts) :
    isdigit c = false ∧ c ≠ '_' ∧ c ≠ 'g' ∧ startsName c = false := by
  have hc : c ∈ ['i', 'e', 'm', 'a', 'f', 'd', 'c', 'b', 'v', 'p', 'h'] := h
  simp only [List.mem_cons, List.not_mem_nil, or_false] at hc
  rcases hc with rfl | rfl | rfl | rfl | rfl | rfl | rfl | rfl | rfl | rfl | rfl <;> decide

theorem keyShape_letter {s : Str} {i : Nat} {c : Char} (h : s[i]? = some c)
    (hc : c ∈ supporttedExts) : KeyShape s [c] := by
  refine ⟨⟨c, rfl, Or.inl hc⟩, ?_, ?_⟩
  · rw [← slice_succ h]
    exact slice_infix s i (i + 1)
  · intro x hx
    obtain rfl : c = x := by simpa using hx
    exact (supporttedExts_spec hc).1

theorem keyShape_name {s name : Str} {i next : Nat} {v : Nat × Nat} {c : Char}
    (h : s[i]? = some c) (hc : c ∈ mcExtPrefix) (hv : parseMcExt s i = .ok (next, name, v)) :
    KeyShape s name := by
  obtain ⟨hd, hp, -⟩ := mcExtPrefix_spec hc
  obtain ⟨-, ⟨q, x, hq, -, rfl, hx, hxd⟩, -⟩ := parseMcExt_ok h hd hp hv
  refine ⟨⟨c, head?_slice h (by omega), Or.inr hc⟩, slice_infix _ _ _, ?_⟩
  intro y hy
  rw [getLast?_slice hx hq] at hy
  cases hy
  exact hxd

theorem exists_keys_set (d : Exts) (k : Str) (v : Nat × Nat) :
    ∃ l, (d.set k v).keys = d.keys ++ l ∧ ∀ x ∈ l, x = k := by
  rw [Dict.keys_set]
  split
  · exact ⟨[], (List.append_nil _).symm, fun x hx => absurd hx List.not_mem_nil⟩
  · exact ⟨[k], rfl, fun x hx => List.mem_singleton.mp hx⟩

/-- The loop adds keys after those there are, each of them read by one of the two parsers. -/
theorem keys_parseExts {extStr : Str} {P : Str → Prop}
    (letter : ∀ (i : Nat) (c : Char), extStr[i]? = some c → c ∈ supporttedExts → P [c])
    (name : ∀ (i : Nat) (c : Char) next n v, extStr[i]? = some c → c ∈ mcExtPrefix →
      parseMcExt extStr i = .ok (next, n, v) → P n) : ∀ (fuel idx : Nat) (exts d : Exts),
    parseExts extStr fuel idx exts = .ok d → ∃ l, d.keys = exts.keys ++ l ∧ ∀ k ∈ l, P k
  | 0, idx, exts, d, h => by
    rw [parseExts] at h
    split at h
    · cases h
    · cases h
      exact ⟨[], (List.append_nil _).symm, fun k hk => absurd hk List.not_mem_nil⟩
  | fuel + 1, idx, exts, d, h => by
    -- a key set here, then what the rest of the loop adds
    have hset : ∀ (k : Str) (v : Nat × Nat) (next : Nat), P k →
        parseExts extStr fuel next (exts.set k v) = .ok d →
        ∃ l, d.keys = exts.keys ++ l ∧ ∀ k ∈ l, P k := by
      intro k v next hk h
      obtain ⟨l, hl, hP⟩ := keys_parseExts letter name fuel next _ d h
      obtain ⟨l', hl', hone⟩ := exists_keys_set exts k v
      refine ⟨l' ++ l, by rw [hl, hl', List.append_assoc], ?_⟩
      intro x hx
      rcases List.mem_append.mp hx with hx | hx
      · rw [hone x hx]
        exact hk
      · exact hP x hx
    rw [parseExts] at h
    split at h
    · cases h
      exact ⟨[], (List.append_nil _).symm, fun k hk => absurd hk List.not_mem_nil⟩
    · rename_i c hc
      split at h
      · rename_i hs
        obtain ⟨⟨next, n, v⟩, hv, h⟩ := bind_ok h
        obtain rfl := (parseVersion_ok hc hv).1
        exact hset _ v next (letter idx c hc hs) h
      · split at h
        · rename_i hmc
          obtain ⟨⟨next, n, v⟩, hv, h⟩ := bind_ok h
          exact hset n v next (name idx c next n v hc hmc hv) h
        · split at h
          · exact keys_parseExts letter name fuel (idx + 1) exts d h
          · cases h

theorem mem_keys_parseExts (extStr : Str) (fuel idx : Nat) (exts d : Exts)
    (h : parseExts extStr fuel idx exts = .ok d) :
    ∀ k ∈ d.keys, k ∈ exts.keys ∨ KeyShape extStr k := by
  obtain ⟨l, hl, hshape⟩ := keys_parseExts (fun _ _ hc hs => keyShape_letter hc hs)
    (fun _ _ _ _ _ hc hmc hv => keyShape_name hc hmc hv) fuel idx exts d h
  intro k hk
  rw [hl, List.mem_append] at hk
  exact hk.imp_right (hshape k)

theorem startsName_iff {c : Char} : startsName c = true ↔ c ∈ mcExtPrefix := by
  have h : c ∈ mcExtPrefix ↔ c ∈ ['z', 's', 'x'] := Iff.rfl
  simp only [h, startsName, Bool.or_eq_true, beq_iff_eq, List.mem_cons, List.not_mem_nil, or_false]
  tauto

theorem drop_eq_cons {s : Str} {i : Nat} {c : Char} (h : s[i]? = some c) :
    s.drop i = c :: s.drop (i + 1) := by
  obtain ⟨hi, rfl⟩ := List.getElem?_eq_some_iff.mp h
  exact List.drop_eq_getElem_cons hi

/-- Both scanners end a multi-letter name at the same place. -/
theorem partEnd_eq {s : Str} {i : Nat} (hi : i < s.length) :
    partEnd s i = i + 1 + ((s.drop (i + 1)).takeWhile inPart).length := by
  have hs : (s.drop (i + 1)).takeWhile inPart ++ (s.drop (i + 1)).dropWhile inPart =
      s.drop (i + 1) := List.takeWhile_append_dropWhile
  have hno : '_' ∉ (s.drop (i + 1)).takeWhile inPart := by
    intro h
    exact absurd (List.mem_takeWhile_imp h) (by decide)
  rw [partEnd]
  rcases split_takeWhile (s.drop (i + 1)) with ⟨hd, -⟩ | ⟨u, hd, -⟩
  · rw [hd, List.append_nil] at hs
    rw [hs] at hno ⊢
    rw [find_of_not_mem hno, List.length_drop]
    show s.length = _
    omega
  · have hfind : find '_' (s.drop (i + 1)) =
        some ((s.drop (i + 1)).takeWhile inPart).length := by
      conv_lhs => rw [← hs, hd]
      exact find_append hno
    rw [hfind]
    show _ + i + 1 = _
    omega

theorem slice_partEnd {s : Str} {i : Nat} {c : Char} (h : s[i]? = some c) :
    slice s i (partEnd s i) = c :: (s.drop (i + 1)).takeWhile inPart := by
  have hi : i < s.length := (List.getElem?_eq_some_iff.mp h).1
  rw [slice, partEnd_eq hi, List.drop_take, drop_eq_cons h,
    show i + 1 + ((s.drop (i + 1)).takeWhile inPart).length - i =
      ((s.drop (i + 1)).takeWhile inPart).length + 1 by omega, List.take_succ_cons]
  congr 1
  exact (List.prefix_iff_eq_take.mp (List.takeWhile_prefix inPart)).symm

theorem drop_partEnd {s : Str} {i : Nat} (hi : i < s.length) :
    s.drop (partEnd s i) = (s.drop (i + 1)).dropWhile inPart := by
  let t := s.drop (i + 1)
  have ht : t.takeWhile inPart ++ t.dropWhile inPart = t := List.takeWhile_append_dropWhile
  calc s.drop (partEnd s i)
      = t.drop (t.takeWhile inPart).length := by rw [partEnd_eq hi, ← List.drop_drop]
    _ = (t.takeWhile inPart ++ t.dropWhile inPart).drop (t.takeWhile inPart).length := by rw [ht]
    _ = t.dropWhile inPart := List.drop_left

/-- A digit at the head of a string is an extension for `Arch`. -/
theorem not_digit_of_noDigitEnd {c : Char} {s : Str} (h : NoDigitEnd (exts (c :: s))) :
    isdigit c = false := by
  by_cases hd : isdigit c = true
  · have hname : startsName c = false := by
      rw [Bool.eq_false_iff, Ne, startsName_iff]
      intro hmc
      rw [(mcExtPrefix_spec hmc).1] at hd
      cases hd
    have hsep : c ≠ '_' := by
      intro he
      subst he
      exact absurd hd (by decide)
    rw [exts_letter s hname hsep] at h
    exact (noDigitEnd_cons.mp h).1 c rfl
  · simpa using hd

/-- On a string without versions the loop sets the extensions `Arch` finds, and no others. -/
theorem mem_keys_iff_mem_exts (extStr : Str) : ∀ (fuel idx : Nat) (es d : Exts),
    extStr.length - idx ≤ fuel → NoDigitEnd (exts (extStr.drop idx)) →
    parseExts extStr fuel idx es = .ok d →
    ∀ k, k ∈ d.keys ↔ k ∈ es.keys ∨ k ∈ exts (extStr.drop idx)
  | 0, idx, es, d, hfuel, _, h, k => by
    rw [parseExts, if_neg (by omega)] at h
    cases h
    rw [List.drop_eq_nil_of_le (by omega)]
    simp [exts, scanExt]
  | fuel + 1, idx, es, d, hfuel, hno, h, k => by
    rw [parseExts] at h
    split at h
    · rename_i hnone
      cases h
      rw [List.drop_eq_nil_of_le (List.getElem?_eq_none_iff.mp hnone)]
      simp [exts, scanExt]
    · rename_i c hc
      have hlt : idx < extStr.length := (List.getElem?_eq_some_iff.mp hc).1
      rw [drop_eq_cons hc] at hno ⊢
      split at h
      · -- a letter: a digit after it would be an extension for `Arch`
        rename_i hs
        obtain ⟨-, hsep, -, hname⟩ := supporttedExts_spec hs
        obtain ⟨⟨next, name, v⟩, hv, h⟩ := bind_ok h
        obtain ⟨rfl, hnext, hnext'⟩ := parseVersion_ok hc hv
        rw [exts_letter _ hname hsep] at hno ⊢
        have hno' := (noDigitEnd_cons.mp hno).2
        obtain rfl : next = idx + 1 := by
          apply hnext'
          intro x hx
          rw [drop_eq_cons hx] at hno'
          exact not_digit_of_noDigitEnd hno'
        rw [mem_keys_iff_mem_exts extStr fuel (idx + 1) _ d (by omega) hno' h k,
          Dict.mem_keys_set, List.mem_cons]
        tauto
      · split at h
        · rename_i hmc
          obtain ⟨hd, hp, -⟩ := mcExtPrefix_spec hmc
          obtain ⟨⟨next, name, v⟩, hv, h⟩ := bind_ok h
          obtain ⟨rfl, -, hwhole⟩ := parseMcExt_ok hc hd hp hv
          rw [exts_name _ (startsName_iff.mpr hmc), ← slice_partEnd hc, ← drop_partEnd hlt] at hno ⊢
          obtain ⟨hlast, hno'⟩ := noDigitEnd_cons.mp hno
          have hpart := lt_partEnd hlt
          obtain rfl : name = slice extStr idx (partEnd extStr idx) := by
            apply hwhole
            intro x hx
            apply hlast
            have := getLast?_slice (i := idx) (j := partEnd extStr idx - 1) hx (by omega)
            rwa [Nat.sub_add_cancel (by omega)] at this
          rw [mem_keys_iff_mem_exts extStr fuel _ _ d (by omega) hno' h k,
            Dict.mem_keys_set, List.mem_cons]
          tauto
        · split at h
          · rename_i hu
            subst hu
            rw [exts_sep] at hno ⊢
            exact mem_keys_iff_mem_exts extStr fuel (idx + 1) es d (by omega) hno h k
          · cases h

/-! The shorthand `g`. -/

/-- The bases both readers know. -/
def bases : List Str := ["rv32".toList, "rv64".toList]

theorem mem_archBases {base : Str} (hb : base ∈ bases) : base ∈ archBases := by
  rcases List.mem_pair.mp hb with rfl | rfl <;> decide

theorem infix_of_cons_ne {o s : Str} {x c : Char} (hx : o.head? = some x) (hc : c ≠ x)
    (h : o <:+: c :: s) : o <:+: s := by
  rcases List.infix_cons_iff.mp h with h | h
  · cases o with
    | nil => cases hx
    | cons y o =>
      obtain ⟨hy, -⟩ := List.cons_prefix_cons.mp h
      cases hx
      exact absurd hy.symm hc
  · exact h

theorem shorthand_head {o : Str} (ho : o ∈ shorthands) : o.head? = some 'r' := by
  rcases List.mem_pair.mp ho with rfl | rfl <;> rfl

/-- Past the start a shorthand occurs in what follows the base. -/
theorem infix_tail_iff {base o : Str} (hb : base ∈ bases) (ho : o ∈ shorthands) (s : Str) :
    o <:+: (base ++ s).drop 1 ↔ o <:+: s := by
  refine ⟨?_, ?_⟩
  · intro h
    have hr := shorthand_head ho
    have key : ∀ a b : Char, a ≠ 'r' → b ≠ 'r' → o <:+: 'v' :: a :: b :: s → o <:+: s := by
      intro a b ha hb h
      exact infix_of_cons_ne hr hb (infix_of_cons_ne hr ha (infix_of_cons_ne hr (by decide) h))
    rcases List.mem_pair.mp hb with rfl | rfl
    · exact key '3' '2' (by decide) (by decide) h
    · exact key '6' '4' (by decide) (by decide) h
  · intro h
    refine h.trans ?_
    rcases List.mem_pair.mp hb with rfl | rfl
    · exact (List.suffix_append ['v', '3', '2'] s).isInfix
    · exact (List.suffix_append ['v', '6', '4'] s).isInfix

theorem infix_expandHead_iff {o : Str} (ho : o ∈ shorthands) (s : Str) :
    o <:+: expandHead s ↔ o <:+: s := by
  have hr := shorthand_head ho
  have hd : 'd' ∉ o := by rcases List.mem_pair.mp ho with rfl | rfl <;> decide
  have hmid : ¬ o <:+: "imaf".toList := by rcases List.mem_pair.mp ho with rfl | rfl <;> decide
  unfold expandHead
  split
  · rename_i s
    refine ⟨?_, ?_⟩
    · intro h
      have hs : o <:+: s := (infix_append_sep (a := "imaf".toList) hd h).resolve_left hmid
      exact hs.trans (List.suffix_cons _ _).isInfix
    · intro h
      have hs := infix_of_cons_ne hr (by decide) h
      exact hs.trans (List.suffix_append _ _).isInfix
  · exact Iff.rfl

theorem take_expandG (s : Str) : (expandG s).take 4 = s.take 4 := by
  rw [expandG, take_replace (p := "rv32".toList) (by decide) (by decide) (by decide) _ 4 (by decide),
    take_replace (p := "rv64".toList) (by decide) (by decide) (by decide) _ 4 (by decide)]

/-- No shorthand is left after the two replacements. -/
theorem not_infix_expandG {o : Str} (ho : o ∈ shorthands) (s : Str) : ¬ o <:+: expandG s := by
  intro h
  have h64 : ∀ t, ¬ "rv64g".toList <:+: replace "rv64g".toList "rv64imafd".toList t := by
    intro t ht
    obtain ⟨u, -, hu, hnot⟩ := @infix_replace "rv64".toList "rv64g".toList "rv64imaf".toList
      "rv64g".toList 'd' (by decide) (by decide) (by decide) (by decide) (by decide) (by decide) t ht
    exact hnot hu
  rcases List.mem_pair.mp ho with rfl | rfl
  · obtain ⟨u, -, hu, hnot⟩ := @infix_replace "rv32".toList "rv32g".toList "rv32imaf".toList
      "rv32g".toList 'd' (by decide) (by decide) (by decide) (by decide) (by decide) (by decide) _ h
    exact hnot hu
  · obtain ⟨u, hsuf, hu, -⟩ := @infix_replace "rv32".toList "rv32g".toList "rv32imaf".toList
      "rv64g".toList 'd' (by decide) (by decide) (by decide) (by decide) (by decide) (by decide) _ h
    exact h64 s (hu.isInfix.trans hsuf.isInfix)

/-- A shorthand occurs in a base and what follows at the start or in what follows. -/
theorem infix_base {base o s : Str} (hb : base ∈ bases) (ho : o ∈ shorthands)
    (h : o <:+: base ++ s) : o <+: base ++ s ∨ o <:+: s := by
  have hcons : base ++ s = 'r' :: (base ++ s).drop 1 := by
    rcases List.mem_pair.mp hb with rfl | rfl <;> rfl
  rw [hcons] at h
  rcases List.infix_cons_iff.mp h with h | h
  · rw [← hcons] at h
    exact Or.inl h
  · exact Or.inr ((infix_tail_iff hb ho s).mp h)

theorem length_base {b : Str} (hb : b ∈ bases) : b.length = 4 := by
  rcases List.mem_pair.mp hb with rfl | rfl <;> rfl

theorem mem_shorthands {b : Str} (hb : b ∈ bases) : b ++ ['g'] ∈ shorthands := by
  rcases List.mem_pair.mp hb with rfl | rfl <;> decide

theorem replace_same_base {b s : Str} (hb : b ∈ bases) (h : ¬ b ++ ['g'] <:+: s) :
    replace (b ++ ['g']) (b ++ "imafd".toList) (b ++ s) = b ++ expandHead s := by
  unfold expandHead
  split
  · rename_i s
    have hs : ¬ b ++ ['g'] <:+: s := fun hin => h (hin.trans (List.suffix_cons _ _).isInfix)
    have happ := @replace_append (b ++ ['g']) (b ++ "imafd".toList) s (by simp)
    rw [List.append_assoc, List.singleton_append, replace_eq_self hs, List.append_assoc] at happ
    exact happ
  · rename_i hg
    apply replace_eq_self
    intro hin
    rcases infix_base hb (mem_shorthands hb) hin with hpre | hin
    · obtain ⟨t, ht⟩ := (List.prefix_append_right_inj b).mp hpre
      exact hg t ht.symm
    · exact h hin

theorem replace_other_base {b base s : Str} (hb : b ∈ bases) (hbase : base ∈ bases)
    (hne : b ≠ base) (h : ¬ b ++ ['g'] <:+: s) :
    replace (b ++ ['g']) (b ++ "imafd".toList) (base ++ s) = base ++ s := by
  apply replace_eq_self
  intro hin
  rcases infix_base hbase (mem_shorthands hb) hin with hpre | hin
  · have hpre' : b <+: base ++ s := (List.prefix_append b ['g']).trans hpre
    have htake := List.prefix_iff_eq_take.mp hpre'
    rw [length_base hb, ← length_base hbase, List.take_left] at htake
    exact hne htake
  · exact h hin

/-- Without a shorthand past the start the two readers read the same string. -/
theorem expandG_eq {base : Str} (hb : base ∈ bases) {s : Str}
    (h : ∀ o ∈ shorthands, ¬ o <:+: s) : expandG (base ++ s) = base ++ expandHead s := by
  have h32 : ¬ "rv32".toList ++ ['g'] <:+: s := h _ (by decide)
  have h64 : ¬ "rv64".toList ++ ['g'] <:+: s := h _ (by decide)
  rcases List.mem_pair.mp hb with rfl | rfl
  · calc expandG ("rv32".toList ++ s)
        = replace ("rv32".toList ++ ['g']) ("rv32".toList ++ "imafd".toList)
            (replace ("rv64".toList ++ ['g']) ("rv64".toList ++ "imafd".toList)
              ("rv32".toList ++ s)) := rfl
      _ = _ := by
        rw [replace_other_base (by decide) (by decide) (by decide) h64,
          replace_same_base (by decide) h32]
  · have h32' : ¬ "rv32".toList ++ ['g'] <:+: expandHead s := fun hin =>
      h32 ((infix_expandHead_iff (by decide) s).mp hin)
    calc expandG ("rv64".toList ++ s)
        = replace ("rv32".toList ++ ['g']) ("rv32".toList ++ "imafd".toList)
            (replace ("rv64".toList ++ ['g']) ("rv64".toList ++ "imafd".toList)
              ("rv64".toList ++ s)) := rfl
      _ = _ := by
        rw [replace_same_base (by decide) h64,
          replace_other_base (by decide) (by decide) (by decide) h32']

/-- `Arch` finds a shorthand in one of its extensions, or an `r` of its own. -/
theorem exts_of_infix {o : Str} (ho : o ∈ shorthands) (s : Str) (h : o <:+: s) :
    ['r'] ∈ exts s ∨ ∃ e ∈ exts s, o <:+: e := by
  have hr := shorthand_head ho
  have hsep : '_' ∉ o := by rcases List.mem_pair.mp ho with rfl | rfl <;> decide
  induction s using exts_induction with
  | nil =>
    rw [List.infix_nil.mp h] at hr
    cases hr
  | name c s hc ih =>
    have hcr : c ≠ 'r' := by
      intro he
      subst he
      exact absurd hc (by decide)
    have hs : s.takeWhile inPart ++ s.dropWhile inPart = s := List.takeWhile_append_dropWhile
    have hins := infix_of_cons_ne hr hcr h
    have hmem : ∀ e, e = c :: s.takeWhile inPart → e ∈ exts (c :: s) := by
      intro e he
      rw [exts_name s hc, he]
      exact List.mem_cons_self
    have hwithin : o <:+: s.takeWhile inPart → ∃ e ∈ exts (c :: s), o <:+: e := fun hin =>
      ⟨_, hmem _ rfl, hin.trans (List.suffix_cons _ _).isInfix⟩
    rcases split_takeWhile s with ⟨hd, -⟩ | ⟨u, hd, -⟩
    · rw [hd, List.append_nil] at hs
      rw [← hs] at hins
      exact Or.inr (hwithin hins)
    · -- the shorthand has no separator, so it stands on one side of this one
      rw [hd] at hs
      rw [← hs] at hins
      rcases infix_append_sep hsep hins with hin | hin
      · exact Or.inr (hwithin hin)
      · have hrest := ih (by rw [hd]; exact hin.trans (List.suffix_cons _ _).isInfix)
        rw [exts_name s hc]
        rcases hrest with hrest | ⟨e, he, hoe⟩
        · exact Or.inl (List.mem_cons_of_mem _ hrest)
        · exact Or.inr ⟨e, List.mem_cons_of_mem _ he, hoe⟩
  | sep s ih =>
    rw [exts_sep]
    exact ih (infix_of_cons_ne hr (by decide) h)
  | letter c s hc hu ih =>
    rw [exts_letter s hc hu]
    by_cases hcr : c = 'r'
    · subst hcr
      exact Or.inl List.mem_cons_self
    · rcases ih (infix_of_cons_ne hr hcr h) with hrest | ⟨e, he, hoe⟩
      · exact Or.inl (List.mem_cons_of_mem _ hrest)
      · exact Or.inr ⟨e, List.mem_cons_of_mem _ he, hoe⟩

/-! The readers side by side. -/

theorem parseMarch_eq_ok_some {s : Str} {d : Exts} (h : parseMarch s = .ok (some d)) :
    (expandG s).take 5 ∈ baseIsas ∧
      parseExts ((expandG s).drop 4) ((expandG s).drop 4).length 0 Dict.empty = .ok d := by
  rw [parseMarch] at h
  split at h
  · cases h
  · simp only at h
    split at h
    · rename_i hisa
      obtain ⟨d', hd', h⟩ := bind_ok h
      cases h
      exact ⟨hisa, hd'⟩
    · cases h

/-- What a successful `parseMarch` says: the base, and the loop on what follows it. -/
theorem parseMarch_ok {s : Str} {d : Exts} (h : parseMarch s = .ok (some d)) :
    ∃ base ∈ bases, ∃ t, s = base ++ t ∧
      ∃ fuel, ((expandG s).drop 4).length ≤ fuel ∧
        parseExts ((expandG s).drop 4) fuel 0 Dict.empty = .ok d := by
  obtain ⟨hisa, hloop⟩ := parseMarch_eq_ok_some h
  have htake : s.take 4 ∈ bases := by
    have hmap : (expandG s).take 4 ∈ baseIsas.map (List.take 4) := by
      refine List.mem_map.mpr ⟨_, hisa, ?_⟩
      rw [List.take_take]
      rfl
    rw [take_expandG] at hmap
    have hsub : ∀ w ∈ baseIsas.map (List.take 4), w ∈ bases := by decide
    exact hsub _ hmap
  exact ⟨s.take 4, htake, s.drop 4, (List.take_append_drop 4 s).symm, _, Nat.le_refl _, hloop⟩

theorem noDigitEnd_letter {c : Char} (s : Str) (h : startsName c = false) (hsep : c ≠ '_')
    (hd : isdigit c = false) : NoDigitEnd (exts (c :: s)) ↔ NoDigitEnd (exts s) := by
  rw [exts_letter s h hsep, noDigitEnd_cons]
  simp [hd]

/-- Expanding the shorthand brings in no version. -/
theorem split_expandHead (s : Str) :
    (∀ w ∈ split '_' (expandHead s), Unversioned w) ↔ ∀ w ∈ split '_' s, Unversioned w := by
  rw [← noDigitEnd_exts_iff, ← noDigitEnd_exts_iff]
  unfold expandHead
  split
  · rename_i s
    have hg : NoDigitEnd (exts ('g' :: s)) ↔ NoDigitEnd (exts s) :=
      noDigitEnd_letter s (by decide) (by decide) (by decide)
    show NoDigitEnd (exts ('i' :: 'm' :: 'a' :: 'f' :: 'd' :: s)) ↔ _
    rw [hg, noDigitEnd_letter _ (by decide) (by decide) (by decide),
      noDigitEnd_letter _ (by decide) (by decide) (by decide),
      noDigitEnd_letter _ (by decide) (by decide) (by decide),
      noDigitEnd_letter _ (by decide) (by decide) (by decide),
      noDigitEnd_letter _ (by decide) (by decide) (by decide)]
  · exact Iff.rfl

/-- The two readers agree on the base, and on the extensions exactly when the string has the
    shorthand at its start only and carries no version. -/
theorem arch_agrees_iff (s : Str) (d : Exts) (h : parseMarch s = .ok (some d)) :
    ∃ a, Arch.init s = some a ∧ a.baseArch = s.take 4 ∧
      ((∀ name, name ∈ a.ext ↔ name ∈ d.keys) ↔
        (∀ o ∈ shorthands, ¬ o <:+: s.drop 1) ∧ ∀ w ∈ split '_' (s.drop 4), Unversioned w) := by
  obtain ⟨base, hb, t, rfl, fuel, hfuel, hloop⟩ := parseMarch_ok h
  have hlen := length_base hb
  have hdrop : (base ++ t).drop 4 = t := List.drop_left' hlen
  have hkeys : ∀ k ∈ d.keys, KeyShape ((expandG (base ++ t)).drop 4) k := by
    intro k hk
    exact (mem_keys_parseExts _ _ _ _ _ hloop k hk).resolve_left (by simp [Dict.empty, Dict.keys])
  refine ⟨⟨base, exts (expandHead t)⟩, arch_init (mem_archBases hb) t, (List.take_left' hlen).symm, ?_⟩
  rw [hdrop, ← split_expandHead, ← noDigitEnd_exts_iff]
  refine ⟨?_, ?_⟩
  · intro hsame
    refine ⟨?_, ?_⟩
    · intro o ho hin
      have hin' := (infix_expandHead_iff ho t).mpr ((infix_tail_iff hb ho t).mp hin)
      rcases exts_of_infix ho _ hin' with hr | ⟨e, he, hoe⟩
      · -- no key is an `r`
        obtain ⟨c, hc, hknown⟩ := (hkeys _ ((hsame _).mp hr)).head
        cases hc
        exact absurd hknown (by decide)
      · -- a key would hold what `parse_march` has replaced
        have hocc := (hkeys e ((hsame e).mp he)).occurs
        exact not_infix_expandG ho (base ++ t)
          (hoe.trans (hocc.trans (List.drop_suffix 4 _).isInfix))
    · intro e he
      exact (hkeys e ((hsame e).mp he)).last
  · intro h name
    obtain ⟨hstart, hno⟩ := h
    have hG : expandG (base ++ t) = base ++ expandHead t :=
      expandG_eq hb (fun o ho hin => hstart o ho ((infix_tail_iff hb ho t).mpr hin))
    rw [hG, List.drop_left' hlen] at hloop hfuel
    have hsame := mem_keys_iff_mem_exts _ fuel 0 Dict.empty d (by omega) (by simpa using hno) hloop
    rw [hsame name]
    simp [Dict.empty, Dict.keys]

/-- `rv64gc_zba` carries no version: the readers agree on it. -/
theorem arch_agrees_rv64gc_zba : ∃ a d,
    parseMarch "rv64gc_zba".toList = .ok (some d) ∧ Arch.init "rv64gc_zba".toList = some a ∧
      a.baseArch = "rv64".toList ∧ ∀ name, name ∈ a.ext ↔ name ∈ d.keys := by
  let letters := "imafdc".toList.map fun c => ([c], (2, 0))
  let d := Dict.empty.assign (letters ++ [("zba".toList, (0, 0))])
  have hd : parseMarch "rv64gc_zba".toList = .ok (some d) := rfl
  obtain ⟨a, ha, hbase, hiff⟩ := arch_agrees_iff _ d hd
  refine ⟨a, d, hd, ha, hbase, hiff.mpr ⟨by decide, ?_⟩⟩
  have hsplit : split '_' ("rv64gc_zba".toList.drop 4) = ["gc".toList, "zba".toList] := by decide
  rw [hsplit]
  intro w hw
  rcases List.mem_pair.mp hw with rfl | rfl
  · refine ⟨?_, ?_⟩
    · intro c hc
      have hc' : c ∈ ['g', 'c'] := hc
      rcases List.mem_pair.mp hc' with rfl | rfl <;> decide
    · intro c hc
      cases hc
      decide
  · refine ⟨?_, ?_⟩
    · intro c hc
      cases hc
    · intro c hc
      cases hc
      decide

/-- On `rv64i2p0` the dictionary has `i` only; `Arch` has the digits and the `p` besides. -/
theorem not_arch_agrees : ¬ ∀ (s : Str) (d : Exts), parseMarch s = .ok (some d) →
    ∃ a, Arch.init s = some a ∧ a.baseArch = s.take 4 ∧
      ∀ name, name ∈ a.ext ↔ name ∈ d.keys := by
  intro h
  let d := Dict.empty.set "i".toList (2, 0)
  have hd : parseMarch "rv64i2p0".toList = .ok (some d) := rfl
  have hkeys : "2".toList ∉ d.keys := by decide
  obtain ⟨a, ha, -, hext⟩ := h _ d hd
  have hmem : "2".toList ∈ a.ext := by
    have ha' : Arch.init "rv64i2p0".toList =
      some ⟨"rv64".toList, ["i".toList, "2".toList, "p".toList, "0".toList]⟩ := by decide
    rw [ha'] at ha
    cases ha
    decide
  exact hkeys ((hext _).mp hmem)

end ArchString
