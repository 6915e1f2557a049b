import RiscvToolchain.ArchString.ParseMarch

/- What the two parsers of an extension return, in terms of the runs of digits in the
   string: `parseVersion` reads a letter's version forwards (`parseVersion_bare`,
   `parseVersion_digits`), `parseMcExt` reads that of a multi-letter part backwards from
   the end of the part (`parseMcExt_plain`, `parseMcExt_digits`). -/
namespace ArchString
open Python

/-- The digits a string starts with, and what follows them. -/
def digits (s : Str) : Str := s.takeWhile isdigit

def afterDigits (s : Str) : Str := s.dropWhile isdigit

/-- The digits a string ends in, and what stands before them. -/
def trailingDigits (s : Str) : Str := (digits s.reverse).reverse

def beforeDigits (s : Str) : Str := (afterDigits s.reverse).reverse

/-! Runs of digits. -/

theorem digits_append_afterDigits (s : Str) : digits s ++ afterDigits s = s :=
  List.takeWhile_append_dropWhile

theorem isdigit_of_mem_digits {s : Str} {c : Char} (h : c ∈ digits s) : isdigit c = true :=
  List.mem_takeWhile_imp h

theorem isdigit_head_afterDigits (s : Str) : ∀ c ∈ (afterDigits s).head?, isdigit c = false := by
  intro c hc
  have h := List.head?_dropWhile_not isdigit s
  rw [show s.dropWhile isdigit = afterDigits s from rfl] at h
  rw [Option.mem_def.mp hc] at h
  simpa using h

theorem isdigit_of_mem_trailingDigits {s : Str} {c : Char} (h : c ∈ trailingDigits s) :
    isdigit c = true :=
  isdigit_of_mem_digits (List.mem_reverse.mp h)

theorem beforeDigits_append_trailingDigits (s : Str) : beforeDigits s ++ trailingDigits s = s := by
  rw [beforeDigits, trailingDigits, ← List.reverse_append, digits_append_afterDigits,
    List.reverse_reverse]

theorem getLast?_beforeDigits (s : Str) : ∀ c ∈ (beforeDigits s).getLast?, isdigit c = false := by
  rw [beforeDigits, List.getLast?_reverse]
  exact isdigit_head_afterDigits _

theorem digits_append {ds t : Str} (hd : ∀ c ∈ ds, isdigit c = true)
    (ht : ∀ c ∈ t.head?, isdigit c = false) : digits (ds ++ t) = ds := by
  rw [digits, List.takeWhile_append_of_pos hd]
  cases t with
  | nil => simp
  | cons c t => simp [ht c (by simp)]

theorem afterDigits_append {ds t : Str} (hd : ∀ c ∈ ds, isdigit c = true)
    (ht : ∀ c ∈ t.head?, isdigit c = false) : afterDigits (ds ++ t) = t := by
  have h := digits_append_afterDigits (ds ++ t)
  rw [digits_append hd ht] at h
  exact List.append_cancel_left h

theorem trailingDigits_append {s ds : Str} (hd : ∀ c ∈ ds, isdigit c = true)
    (hs : ∀ c ∈ s.getLast?, isdigit c = false) : trailingDigits (s ++ ds) = ds := by
  rw [trailingDigits, List.reverse_append, digits_append, List.reverse_reverse]
  · intro c hc
    exact hd c (List.mem_reverse.mp hc)
  · rw [List.head?_reverse]
    exact hs

theorem beforeDigits_append {s ds : Str} (hd : ∀ c ∈ ds, isdigit c = true)
    (hs : ∀ c ∈ s.getLast?, isdigit c = false) : beforeDigits (s ++ ds) = s := by
  have h := beforeDigits_append_trailingDigits (s ++ ds)
  rw [trailingDigits_append hd hs] at h
  exact List.append_cancel_right h

theorem digitsEnd_append {a ds t : Str} (hd : ∀ c ∈ ds, isdigit c = true)
    (ht : ∀ c ∈ t.head?, isdigit c = false) :
    digitsEnd (a ++ (ds ++ t)) a.length = a.length + ds.length := by
  rw [digitsEnd, List.drop_left]
  exact congrArg (a.length + ·.length) (digits_append hd ht)

/-- From any digit of a run, the backward loop stops just before the run. -/
theorem backOverDigits_run {s : Str} {idx q : Nat} {c : Char} (hidx : idx ≤ q)
    (hq : s[q]? = some c) (hc : isdigit c = false) : ∀ k : Nat,
    (∀ j, q < j → j ≤ q + k → ∃ d, s[j]? = some d ∧ isdigit d = true) →
    backOverDigits s idx (q + k) = .ok q
  | 0, _ => by
    cases q with
    | zero => simp [backOverDigits, charAt, hq, bind, Except.bind, pure, Except.pure]
    | succ q => simp [backOverDigits, charAt, hq, hc, bind, Except.bind, pure, Except.pure]
  | k + 1, h => by
    obtain ⟨d, hd, hdig⟩ := h (q + k + 1) (by omega) (by omega)
    have ih := backOverDigits_run hidx hq hc k (fun j h₁ h₂ => h j h₁ (by omega))
    rw [← Nat.add_assoc, backOverDigits]
    have hlt : idx < q + k + 1 := by omega
    simp only [charAt, hd, hdig, hlt, decide_true, Bool.and_self, if_true, bind, Except.bind]
    exact ih

theorem getElem?_run {a ds t : Str} (hd : ∀ c ∈ ds, isdigit c = true) {j : Nat}
    (h₁ : a.length ≤ j) (h₂ : j < a.length + ds.length) :
    ∃ d, (a ++ (ds ++ t))[j]? = some d ∧ isdigit d = true := by
  have hj : j - a.length < ds.length := by omega
  refine ⟨ds[j - a.length], ?_, hd _ (List.getElem_mem hj)⟩
  rw [List.getElem?_append_right h₁, List.getElem?_append_left hj, List.getElem?_eq_getElem hj]

theorem charAt_append (a t : Str) (c : Char) : charAt (a ++ c :: t) a.length = .ok c := by
  simp [charAt]

/-! A single-letter extension. -/

section Version
variable (a rest : Str) (c : Char)

theorem parseVersion_bare (h : digits rest = []) :
    parseVersion (a ++ c :: rest) a.length = .ok (a.length + 1, [c], 2, 0) := by
  rw [parseVersion, charAt_append]
  simp only [bind, Except.bind]
  have hnext : (a ++ c :: rest)[a.length + 1]? = rest.head? := by
    rw [List.getElem?_append_right (by omega), List.head?_eq_getElem?]
    simp
  have hhead : ∀ d ∈ rest.head?, isdigit d = false := by
    have hrest := digits_append_afterDigits rest
    rw [h, List.nil_append] at hrest
    have := isdigit_head_afterDigits rest
    rw [hrest] at this
    exact this
  rw [hnext]
  split
  · rfl
  · rename_i d hd
    rw [if_neg (by simp [hhead d hd])]
    rfl

/-- After the letter, digits: the major, then the character `parse_version` looks at. -/
theorem parseVersion_digits (h : digits rest ≠ []) :
    parseVersion (a ++ c :: rest) a.length = (do
      let major ← toInt (digits rest)
      let x ← charAt (afterDigits rest) 0
      if x == 'p' then
        let minor ← toInt (digits (afterDigits rest).tail)
        return (a.length + 1 + (digits rest).length + 1 + (digits (afterDigits rest).tail).length,
          [c], major, minor)
      else return (a.length + 1 + (digits rest).length, [c], major, 0)) := by
  let b := a ++ [c]
  have hb : b.length = a.length + 1 := by simp [b]
  have ea : a ++ c :: rest = b ++ (digits rest ++ afterDigits rest) := by
    rw [digits_append_afterDigits]
    simp [b]
  have hletter : charAt (a ++ c :: rest) a.length = .ok c := charAt_append _ _ _
  have hfirst : ∃ x, (a ++ c :: rest)[a.length + 1]? = some x ∧ isdigit x = true := by
    rw [ea, ← hb]
    have := List.length_pos_iff.mpr h
    exact getElem?_run (fun x hx => isdigit_of_mem_digits hx) (Nat.le_refl _) (by omega)
  have hend : digitsEnd (a ++ c :: rest) b.length = b.length + (digits rest).length := by
    rw [ea]
    exact digitsEnd_append (fun x hx => isdigit_of_mem_digits hx) (isdigit_head_afterDigits rest)
  have hmajor : slice (a ++ c :: rest) b.length (b.length + (digits rest).length) = digits rest := by
    rw [ea]
    exact slice_append
  have hx : charAt (a ++ c :: rest) (b.length + (digits rest).length) =
      charAt (afterDigits rest) 0 := by
    rw [ea, ← List.append_assoc, charAt, charAt, ← List.length_append,
      List.getElem?_append_right (Nat.le_refl _), Nat.sub_self]
  obtain ⟨x, hx1, hx2⟩ := hfirst
  rw [parseVersion, hletter]
  simp only [bind, Except.bind, hx1, hx2, if_true]
  rw [← hb, hend, hmajor, hx]
  cases toInt (digits rest) with
  | error e => rfl
  | ok major =>
    cases ht : afterDigits rest with
    | nil => rfl
    | cons y m =>
      -- the minor starts after the `p`
      let d := b ++ (digits rest ++ [y])
      have hd : d.length = b.length + (digits rest).length + 1 := by simp [d]; omega
      have ed : a ++ c :: rest = d ++ (digits m ++ afterDigits m) := by
        rw [ea, ht, digits_append_afterDigits]
        simp [d]
      have hend' : digitsEnd (a ++ c :: rest) d.length = d.length + (digits m).length := by
        rw [ed]
        exact digitsEnd_append (fun x hx => isdigit_of_mem_digits hx) (isdigit_head_afterDigits m)
      have hminor : slice (a ++ c :: rest) d.length (d.length + (digits m).length) = digits m := by
        rw [ed]
        exact slice_append
      rw [← hd, hend', hminor]
      rfl

end Version

/-! A multi-letter extension. -/

theorem partEnd_append {a body t : Str} (hne : body ≠ []) (hsep : '_' ∉ body)
    (ht : t = [] ∨ ∃ u, t = '_' :: u) :
    partEnd (a ++ (body ++ t)) a.length = a.length + body.length := by
  rw [partEnd]
  cases body with
  | nil => exact absurd rfl hne
  | cons x body =>
    have hdrop : (a ++ ((x :: body) ++ t)).drop (a.length + 1) = body ++ t := by
      rw [← List.drop_drop, List.drop_left]; rfl
    have hsep' : '_' ∉ body := fun h => hsep (List.mem_cons_of_mem x h)
    rw [hdrop]
    rcases ht with rfl | ⟨u, rfl⟩
    · rw [List.append_nil, find_of_not_mem hsep']; simp
    · rw [find_append hsep']; simp only [List.length_cons]; omega

theorem backOverDigits_append (a n ds t : Str) {z : Char} (hz : isdigit z = false)
    (hd : ∀ x ∈ ds, isdigit x = true) :
    backOverDigits (a ++ (n ++ [z] ++ (ds ++ t))) a.length (a.length + n.length + ds.length) =
      .ok (a.length + n.length) := by
  refine backOverDigits_run (c := z) (by omega) ?_ hz _ ?_
  · rw [List.getElem?_append_right (by omega)]
    simp
  · intro j h₁ h₂
    rw [← List.append_assoc]
    exact getElem?_run hd (by simp; omega) (by simp; omega)

/-- A part that starts with no digit: a last character that is none, then the trailing digits. -/
theorem exists_beforeDigits {c : Char} {l : Str} (hc : isdigit c = false) :
    ∃ n z, beforeDigits (c :: l) = n ++ [z] ∧ isdigit z = false := by
  have hne : beforeDigits (c :: l) ≠ [] := by
    intro h
    have happ := beforeDigits_append_trailingDigits (c :: l)
    rw [h, List.nil_append] at happ
    have hmem : c ∈ trailingDigits (c :: l) := by rw [happ]; exact List.mem_cons_self
    rw [isdigit_of_mem_trailingDigits hmem] at hc
    cases hc
  refine ⟨_, _, (List.dropLast_append_getLast hne).symm, ?_⟩
  exact getLast?_beforeDigits _ _ (List.getLast?_eq_getLast_of_ne_nil hne)

/-! A part `n ++ [z] ++ digits` in the middle of a string, read from its end. -/

section Backwards
variable (a t : Str) {part n : Str} {z : Char} (hn : beforeDigits part = n ++ [z])

include hn in
theorem part_eq : part = n ++ [z] ++ trailingDigits part := by
  rw [← hn, beforeDigits_append_trailingDigits]

include hn in
theorem length_part : part.length = n.length + 1 + (trailingDigits part).length := by
  have h := congrArg List.length (part_eq hn)
  rw [List.length_append, List.length_append, List.length_singleton] at h
  exact h

include hn in
theorem backOverDigits_part (hz : isdigit z = false) :
    backOverDigits (a ++ (part ++ t)) a.length (a.length + part.length - 1) =
      .ok (a.length + n.length) := by
  have hidx : a.length + part.length - 1 = a.length + n.length + (trailingDigits part).length := by
    have := length_part hn
    omega
  have hs : a ++ (part ++ t) = a ++ (n ++ [z] ++ (trailingDigits part ++ t)) := by
    rw [← List.append_assoc (n ++ [z]), ← part_eq hn]
  rw [hidx, hs]
  exact backOverDigits_append a n _ t hz (fun x hx => isdigit_of_mem_trailingDigits hx)

include hn in
theorem slice_trailingDigits :
    slice (a ++ (part ++ t)) (a.length + n.length + 1) (a.length + part.length) =
      trailingDigits part := by
  have hs : a ++ (part ++ t) = (a ++ (n ++ [z])) ++ (trailingDigits part ++ t) := by
    rw [List.append_assoc a, ← List.append_assoc (n ++ [z]), ← part_eq hn]
  have hfrom : a.length + n.length + 1 = (a ++ (n ++ [z])).length := by simp; omega
  have hto : a.length + part.length = (a ++ (n ++ [z])).length + (trailingDigits part).length := by
    rw [length_part hn, ← hfrom]
    omega
  rw [hs, hfrom, hto]
  exact slice_append

include hn in
theorem slice_beforeDigits :
    slice (a ++ (part ++ t)) a.length (a.length + n.length + 1) = beforeDigits part := by
  have hs : a ++ (part ++ t) = a ++ (beforeDigits part ++ (trailingDigits part ++ t)) := by
    rw [← List.append_assoc (beforeDigits part), beforeDigits_append_trailingDigits]
  have hto : a.length + n.length + 1 = a.length + (beforeDigits part).length := by
    rw [hn]
    simp
    omega
  rw [hs, hto]
  exact slice_append

include hn in
theorem charAt_beforeDigits : charAt (a ++ (part ++ t)) (a.length + n.length) = .ok z := by
  have hs : a ++ (part ++ t) = (a ++ n) ++ z :: (trailingDigits part ++ t) := by
    conv_lhs => rw [part_eq hn]
    simp
  rw [hs, ← List.length_append]
  exact charAt_append _ _ _

theorem charAt_last (h : trailingDigits part ≠ []) :
    ∃ x, charAt (a ++ (part ++ t)) (a.length + part.length - 1) = .ok x ∧ isdigit x = true := by
  have hpos := List.length_pos_iff.mpr h
  have hlen := congrArg List.length (beforeDigits_append_trailingDigits part)
  rw [List.length_append] at hlen
  have hs : a ++ (part ++ t) = (a ++ beforeDigits part) ++ (trailingDigits part ++ t) := by
    rw [List.append_assoc a, ← List.append_assoc (beforeDigits part),
      beforeDigits_append_trailingDigits]
  have hdig : ∀ x ∈ trailingDigits part, isdigit x = true :=
    fun x hx => isdigit_of_mem_trailingDigits hx
  obtain ⟨x, hx, hxd⟩ := getElem?_run (a := a ++ beforeDigits part) (t := t) hdig
    (j := a.length + part.length - 1) (by rw [List.length_append]; omega)
    (by rw [List.length_append]; omega)
  exact ⟨x, by rw [charAt, hs, hx], hxd⟩

end Backwards

section Multi
variable (a t : Str) {c : Char} {l : Str} (hc : isdigit c = false) (hp : c ≠ 'p')
  (hsep : '_' ∉ c :: l) (ht : t = [] ∨ ∃ u, t = '_' :: u)

include hc hsep ht in
theorem parseMcExt_plain (h : trailingDigits (c :: l) = []) :
    parseMcExt (a ++ (c :: l ++ t)) a.length = .ok (a.length + (c :: l).length, c :: l, 0, 0) := by
  obtain ⟨n, z, hn, hz⟩ := exists_beforeDigits (l := l) hc
  have hpart : c :: l = n ++ [z] := by
    rw [← beforeDigits_append_trailingDigits (c :: l), h, hn, List.append_nil]
  have hend := partEnd_append (a := a) (t := t) (List.cons_ne_nil c l) hsep ht
  have hlast : charAt (a ++ (c :: l ++ t)) (a.length + (c :: l).length - 1) = .ok z := by
    rw [hpart, show a ++ (n ++ [z] ++ t) = (a ++ n) ++ z :: t by simp,
      show a.length + (n ++ [z]).length - 1 = (a ++ n).length by simp]
    exact charAt_append _ _ _
  rw [parseMcExt]
  simp only [hend, hlast, bind, Except.bind, hz]
  rw [slice_append]
  rfl

include hc hp hsep ht in
theorem parseMcExt_digits {n : Str} {z : Char} (h : trailingDigits (c :: l) ≠ [])
    (hn : beforeDigits (c :: l) = n ++ [z]) (hz : isdigit z = false) :
    parseMcExt (a ++ (c :: l ++ t)) a.length = (do
      let major ← toInt (trailingDigits (c :: l))
      if z == 'p' then
        let M ← toInt (trailingDigits n)
        return (a.length + (c :: l).length, beforeDigits n, M, major)
      else return (a.length + (c :: l).length, n ++ [z], major, 0)) := by
  have hend : partEnd (a ++ (c :: l ++ t)) a.length = a.length + (c :: l).length :=
    partEnd_append (List.cons_ne_nil c l) hsep ht
  obtain ⟨x, hx, hxd⟩ := charAt_last a t h
  rw [parseMcExt]
  simp only [hend, hx, hxd, bind, Except.bind, if_true, backOverDigits_part a t hn hz,
    slice_trailingDigits a t hn, charAt_beforeDigits a t hn, slice_beforeDigits a t hn]
  cases toInt (trailingDigits (c :: l)) with
  | error e => rfl
  | ok minor =>
    by_cases hzp : z = 'p'
    · -- before the `p` there is at least the prefix letter
      obtain ⟨l', rfl⟩ : ∃ l', n = c :: l' := by
        have hpart := part_eq hn
        cases n with
        | nil =>
          rw [hzp] at hpart
          simp only [List.nil_append, List.cons_append, List.cons.injEq] at hpart
          exact absurd hpart.1 hp
        | cons y n =>
          simp only [List.cons_append, List.cons.injEq] at hpart
          exact ⟨n, by rw [hpart.1]⟩
      obtain ⟨n', z', hn', hz'⟩ := exists_beforeDigits (l := l') hc
      have hs : a ++ (c :: l ++ t) = a ++ (c :: l' ++ (z :: (trailingDigits (c :: l) ++ t))) := by
        conv_lhs => rw [part_eq hn]
        simp
      simp only [hzp, BEq.rfl, if_true]
      rw [hs, backOverDigits_part a _ hn' hz']
      simp only [slice_trailingDigits a _ hn', slice_beforeDigits a _ hn']
    · simp only [beq_eq_false_iff_ne.mpr hzp, Bool.false_eq_true, if_false, hn]

end Multi

end ArchString
