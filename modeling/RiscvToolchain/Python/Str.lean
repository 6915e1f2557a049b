import Mathlib

/- Python `str` over lists of characters: the methods the scripts call, as the
   language reference gives them, and the laws of splitting, joining, stripping
   and replacing that the developments above this file rest on. `isdigit` and
   `isspace` are the full Unicode predicates; `int` is the conversion of a run of
   `isdigit` characters, which fails on an empty run and on a digit that is not a
   decimal digit (a superscript, say), and `intText` that of any text. -/
namespace Python

abbrev Str := List Char

instance : LawfulBEq Str := inferInstanceAs (LawfulBEq (List Char))

/-! Character classes. -/

/-- `str.isspace` of one character. -/
def isspace (c : Char) : Bool :=
  let n := c.toNat
  (0x9 ≤ n && n ≤ 0xd) || (0x1c ≤ n && n ≤ 0x20) || n == 0x85 || n == 0xa0 || n == 0x1680 ||
    (0x2000 ≤ n && n ≤ 0x200a) || n == 0x2028 || n == 0x2029 || n == 0x202f || n == 0x205f ||
    n == 0x3000

/-- The code point of the zero of every block of ten Unicode decimal digits. -/
def decimalZeros : List Nat :=
  [0x30, 0x660, 0x6f0, 0x7c0, 0x966, 0x9e6, 0xa66, 0xae6, 0xb66, 0xbe6, 0xc66, 0xce6, 0xd66,
   0xde6, 0xe50, 0xed0, 0xf20, 0x1040, 0x1090, 0x17e0, 0x1810, 0x1946, 0x19d0, 0x1a80, 0x1a90,
   0x1b50, 0x1bb0, 0x1c40, 0x1c50, 0xa620, 0xa8d0, 0xa900, 0xa9d0, 0xa9f0, 0xaa50, 0xabf0,
   0xff10, 0x104a0, 0x10d30, 0x11066, 0x110f0, 0x11136, 0x111d0, 0x112f0, 0x11450, 0x114d0,
   0x11650, 0x116c0, 0x11730, 0x118e0, 0x11950, 0x11c50, 0x11d50, 0x11da0, 0x16a60, 0x16ac0,
   0x16b50, 0x1d7ce, 0x1d7d8, 0x1d7e2, 0x1d7ec, 0x1d7f6, 0x1e140, 0x1e2f0, 0x1e950, 0x1fbf0]

/-- The digits that are not decimal digits: superscripts, subscripts, circled digits. -/
def otherDigits : List (Nat × Nat) :=
  [(0xb2, 0xb3), (0xb9, 0xb9), (0x1369, 0x1371), (0x19da, 0x19da), (0x2070, 0x2070),
   (0x2074, 0x2079), (0x2080, 0x2089), (0x2460, 0x2468), (0x2474, 0x247c), (0x2488, 0x2490),
   (0x24ea, 0x24ea), (0x24f5, 0x24fd), (0x24ff, 0x24ff), (0x2776, 0x277e), (0x2780, 0x2788),
   (0x278a, 0x2792), (0x10a40, 0x10a43), (0x10e60, 0x10e68), (0x11052, 0x1105a),
   (0x1f100, 0x1f10a)]

/-- The value of a decimal digit. -/
def decimalValue (c : Char) : Option Nat :=
  (decimalZeros.find? fun z => z ≤ c.toNat && c.toNat < z + 10).map (c.toNat - ·)

/-- `str.isdigit` of one character. -/
def isdigit (c : Char) : Bool :=
  (decimalValue c).isSome || otherDigits.any fun r => r.1 ≤ c.toNat && c.toNat ≤ r.2

/-- `int` of a run of `isdigit` characters; `none` is the `ValueError`. -/
def int (s : Str) : Option Nat :=
  if s.isEmpty then none
  else s.foldl (fun acc c => do return 10 * (← acc) + (← decimalValue c)) (some 0)

/-- `str(n)`. -/
def str (n : Nat) : Str := Nat.toDigits 10 n

theorem decimalValue_of_isDigit {c : Char} (h : c.isDigit = true) :
    decimalValue c = some (c.toNat - 48) := by
  have hb : 48 ≤ c.toNat ∧ c.toNat < 58 := by
    simp only [Char.isDigit, Bool.and_eq_true, decide_eq_true_eq] at h
    obtain ⟨h₁, h₂⟩ := h
    have e : c.toNat = c.val.toNat := rfl
    have h₁' : (48 : UInt32).toNat ≤ c.val.toNat := h₁
    have h₂' : c.val.toNat ≤ (57 : UInt32).toNat := h₂
    rw [show (48 : UInt32).toNat = 48 from rfl] at h₁'
    rw [show (57 : UInt32).toNat = 57 from rfl] at h₂'
    omega
  unfold decimalValue decimalZeros
  rw [List.find?_cons_of_pos]
  · rfl
  · simp only [Bool.and_eq_true, decide_eq_true_eq]; omega

theorem isdigit_of_isDigit {c : Char} (h : c.isDigit = true) : isdigit c = true := by
  simp [isdigit, decimalValue_of_isDigit h]

theorem foldl_int (l : Str) (hl : ∀ c ∈ l, c.isDigit = true) (n : Nat) :
    l.foldl (fun acc c => do return 10 * (← acc) + (← decimalValue c)) (some n) =
      some (Nat.ofDigitChars 10 l n) := by
  induction l generalizing n with
  | nil => simp
  | cons c l ih =>
    rw [List.foldl_cons, Nat.ofDigitChars_cons]
    have hc := decimalValue_of_isDigit (hl c List.mem_cons_self)
    simp only [hc]
    exact ih (fun x hx => hl x (List.mem_cons_of_mem c hx)) _

theorem str_ne_nil (n : Nat) : str n ≠ [] := Nat.toDigits_ne_nil

theorem isDigit_of_mem_str {n : Nat} {c : Char} (h : c ∈ str n) : c.isDigit = true :=
  Nat.isDigit_of_mem_toDigits (by omega) (by omega) h

theorem isdigit_of_mem_str {n : Nat} {c : Char} (h : c ∈ str n) : isdigit c = true :=
  isdigit_of_isDigit (isDigit_of_mem_str h)

/-- `int` reads back what `str` printed. -/
@[simp] theorem int_str (n : Nat) : int (str n) = some n := by
  unfold int
  rw [if_neg (by simpa using str_ne_nil n), foldl_int _ (fun c hc => isDigit_of_mem_str hc)]
  exact congrArg some Nat.ofDigitChars_ten_toDigits

theorem foldl_int_isSome (l : Str) : ∀ acc : Option Nat,
    (l.foldl (fun acc c => do return 10 * (← acc) + (← decimalValue c)) acc).isSome ↔
      acc.isSome ∧ ∀ c ∈ l, (decimalValue c).isSome := by
  induction l with
  | nil => simp
  | cons c l ih =>
    intro acc
    rw [List.foldl_cons, ih]
    cases acc with
    | none => simp
    | some n =>
      cases hc : decimalValue c with
      | none => simp [hc]
      | some v => simp [hc]

/-- `int` converts the nonempty runs of decimal digits. -/
theorem int_isSome_iff (s : Str) :
    (int s).isSome ↔ s ≠ [] ∧ ∀ c ∈ s, (decimalValue c).isSome := by
  unfold int
  by_cases hs : s = []
  · simp [hs]
  · rw [if_neg (by simpa using hs), foldl_int_isSome]
    simp [hs]

/-! Slices and searches. -/

/-- `s[i:j]` for indices that are not negative. -/
def slice (s : Str) (i j : Nat) : Str := (s.take j).drop i

/-- `s.find(c)`: `none` is `-1`. -/
def find (c : Char) (s : Str) : Option Nat := s.findIdx? (· == c)

/-- `s.find(sub)`: `none` is `-1`. -/
def findStr (sub : Str) : Str → Option Nat
  | [] => if sub.isEmpty then some 0 else none
  | c :: s => if sub.isPrefixOf (c :: s) then some 0 else (findStr sub s).map (· + 1)

/-- `s.startswith(p)`. -/
def startsWith (p s : Str) : Bool := p.isPrefixOf s

theorem startsWith_iff {p s : Str} : startsWith p s = true ↔ p <+: s := List.isPrefixOf_iff_prefix

theorem startsWith_append (p s : Str) : startsWith p (p ++ s) = true :=
  startsWith_iff.mpr (List.prefix_append p s)

theorem slice_append {a b c : Str} : slice (a ++ (b ++ c)) a.length (a.length + b.length) = b := by
  rw [slice, ← List.append_assoc, ← List.length_append, List.take_left, List.drop_left]

theorem find_of_not_mem {c : Char} {s : Str} (h : c ∉ s) : find c s = none := by
  rw [find, List.findIdx?_eq_none_iff]
  intro x hx
  rw [beq_eq_false_iff_ne]
  intro heq
  subst heq
  exact h hx

theorem find_append {c : Char} {a b : Str} (h : c ∉ a) : find c (a ++ c :: b) = some a.length := by
  rw [find, List.findIdx?_append]
  have ha := find_of_not_mem h
  rw [find] at ha
  simp [ha, List.findIdx?_cons]

/-! `strip` and its halves. -/

def lstrip (s : Str) : Str := s.dropWhile isspace

def rstrip (s : Str) : Str := (lstrip s.reverse).reverse

def strip (s : Str) : Str := rstrip (lstrip s)

theorem lstrip_cons {c : Char} {s : Str} (h : isspace c = false) : lstrip (c :: s) = c :: s := by
  simp [lstrip, h]

theorem rstrip_snoc {c : Char} {s : Str} (h : isspace c = false) : rstrip (s ++ [c]) = s ++ [c] := by
  simp [rstrip, lstrip_cons h]

theorem rstrip_isPrefix (s : Str) : rstrip s <+: s := by
  have h : lstrip s.reverse <:+ s.reverse := List.dropWhile_suffix isspace
  obtain ⟨t, ht⟩ := h
  refine ⟨t.reverse, ?_⟩
  rw [rstrip, ← List.reverse_append, ht, List.reverse_reverse]

/-- Only white space is stripped from the right. -/
theorem rstrip_append_isspace (s : Str) : ∃ w, s = rstrip s ++ w ∧ ∀ c ∈ w, isspace c = true := by
  refine ⟨(s.reverse.takeWhile isspace).reverse, ?_, ?_⟩
  · rw [rstrip, lstrip, ← List.reverse_append, List.takeWhile_append_dropWhile,
      List.reverse_reverse]
  · intro c hc
    exact List.mem_takeWhile_imp (List.mem_reverse.mp hc)

/-- Stripping the right end keeps a prefix that ends in a character that is not white space. -/
theorem prefix_rstrip {s t : Str} {c : Char} (hc : isspace c = false) (h : t ++ [c] <+: s) :
    t ++ [c] <+: rstrip s := by
  obtain ⟨w, hw, hs⟩ := rstrip_append_isspace s
  rcases List.prefix_or_prefix_of_prefix h (rstrip_isPrefix s) with hp | hp
  · exact hp
  · obtain ⟨u, hu⟩ := hp
    obtain ⟨v, hv⟩ := h
    rcases List.eq_nil_or_concat u with rfl | ⟨u', x, rfl⟩
    · exact ⟨[], by simpa using hu.symm⟩
    · -- the last character of `t ++ [c]` would be one of those stripped
      have hx : x = c := by
        have h' := congrArg List.getLast? hu
        simpa using h'
      have hmem : x ∈ w := by
        have he : rstrip s ++ (u'.concat x ++ v) = rstrip s ++ w := by
          rw [← List.append_assoc, hu, hv]; exact hw
        rw [← List.append_cancel_left he]; simp
      rw [hx] at hmem
      rw [hs c hmem] at hc
      cases hc

theorem strip_cons {c : Char} {s : Str} (h : isspace c = false) : strip (c :: s) = rstrip (c :: s) := by
  rw [strip, lstrip_cons h]

/-! `split` on one character, and `join`. -/

/-- `s.split(c)`. -/
def split (c : Char) : Str → List Str
  | [] => [[]]
  | x :: s =>
    if x = c then [] :: split c s
    else match split c s with
      | [] => [[x]]
      | w :: ws => (x :: w) :: ws

/-- `sep.join(ws)`. -/
def join (sep : Str) (ws : List Str) : Str := List.intercalate sep ws

@[simp] theorem join_nil (sep : Str) : join sep [] = [] := rfl

@[simp] theorem join_singleton (sep w : Str) : join sep [w] = w := by simp [join]

@[simp] theorem join_cons_cons (sep w v : Str) (ws : List Str) :
    join sep (w :: v :: ws) = w ++ (sep ++ join sep (v :: ws)) := by
  simp [join, List.intercalate_cons_cons]

/-- The digits of a number, with single `_` between them. -/
def intDigits (s : Str) : Option Nat :=
  if (split '_' s).any (·.isEmpty) then none else int (split '_' s).flatten

/-- `int` of any text: white space around it and a sign before the digits. -/
def intText (s : Str) : Option Int :=
  match strip s with
  | '-' :: t => (intDigits t).map fun n => -Int.ofNat n
  | '+' :: t => (intDigits t).map Int.ofNat
  | t => (intDigits t).map Int.ofNat

theorem split_ne_nil (c : Char) (s : Str) : split c s ≠ [] := by
  induction s with
  | nil => simp [split]
  | cons x s ih =>
    simp only [split]
    split
    · simp
    · split <;> simp

theorem split_of_not_mem {c : Char} {s : Str} (h : c ∉ s) : split c s = [s] := by
  induction s with
  | nil => rfl
  | cons x s ih =>
    simp only [List.mem_cons, not_or] at h
    rw [split, if_neg (Ne.symm h.1), ih h.2]

theorem split_append {c : Char} {a b : Str} (h : c ∉ a) :
    split c (a ++ c :: b) = a :: split c b := by
  induction a with
  | nil => simp [split]
  | cons x a ih =>
    simp only [List.mem_cons, not_or] at h
    rw [List.cons_append, split, if_neg (Ne.symm h.1), ih h.2]

theorem split_append_sep (c : Char) (a b : Str) :
    split c (a ++ c :: b) = split c a ++ split c b := by
  induction a with
  | nil => simp [split]
  | cons x a ih =>
    rw [List.cons_append, split, split, ih]
    split
    · rfl
    · cases hs : split c a with
      | nil => exact absurd hs (split_ne_nil c a)
      | cons w ws => rfl

/-- Splitting undoes joining when no part holds the separator. -/
theorem split_join {c : Char} {ws : List Str} (hne : ws ≠ []) (h : ∀ w ∈ ws, c ∉ w) :
    split c (join [c] ws) = ws := by
  induction ws with
  | nil => exact absurd rfl hne
  | cons w ws ih =>
    cases ws with
    | nil => rw [join_singleton]; exact split_of_not_mem (h w List.mem_cons_self)
    | cons v ws =>
      rw [join_cons_cons, List.singleton_append, split_append (h w List.mem_cons_self),
        ih (by simp) (fun u hu => h u (List.mem_cons_of_mem w hu))]

theorem not_mem_of_mem_split {c : Char} {s w : Str} (h : w ∈ split c s) : c ∉ w := by
  induction s generalizing w with
  | nil => simp [split] at h; simp [h]
  | cons x s ih =>
    simp only [split] at h
    split at h
    · rcases List.mem_cons.mp h with rfl | h
      · simp
      · exact ih h
    · rename_i hx
      split at h
      · simp at h; subst h; simpa using Ne.symm hx
      · rename_i w' ws hs
        rcases List.mem_cons.mp h with rfl | h
        · simp only [List.mem_cons, not_or]
          exact ⟨Ne.symm hx, ih (by rw [hs]; exact List.mem_cons_self)⟩
        · exact ih (by rw [hs]; exact List.mem_cons_of_mem _ h)

theorem not_mem_join {c : Char} {sep : Str} (hsep : c ∉ sep) : ∀ {ws : List Str},
    (∀ w ∈ ws, c ∉ w) → c ∉ join sep ws
  | [], _ => by simp
  | [w], h => by simpa using h w (by simp)
  | w :: v :: ws, h => by
    rw [join_cons_cons]
    have ih := @not_mem_join c sep hsep (v :: ws) (fun u hu => h u (List.mem_cons_of_mem w hu))
    simp [h w (by simp), hsep, ih]

theorem join_ne_nil {sep : Str} {ws : List Str} (hne : ws ≠ []) (h : ∀ w ∈ ws, w ≠ []) :
    join sep ws ≠ [] := by
  cases ws with
  | nil => exact absurd rfl hne
  | cons w ws =>
    cases ws with
    | nil => simpa using h w (by simp)
    | cons v ws =>
      rw [join_cons_cons]
      simp [h w (by simp)]

/-! Occurrences. -/

/-- An occurrence that ends in `x` stands before a part without `x`. -/
theorem infix_of_append {o n t : Str} {x : Char} (ht : x ∉ t) (h : o ++ [x] <:+: n ++ t) :
    o ++ [x] <:+: n := by
  obtain ⟨l, r, hlr⟩ := h
  rcases List.append_eq_append_iff.mp hlr with ⟨a, hn, _⟩ | ⟨a, hl, ht'⟩
  · exact ⟨l, a, hn.symm⟩
  · rcases List.eq_nil_or_concat a with rfl | ⟨a, y, rfl⟩
    · exact ⟨l, [], by simpa using hl⟩
    · have hy : x = y := by
        have h' := congrArg List.getLast? hl
        simpa using h'
      subst hy
      exact absurd (by rw [ht']; simp) ht

/-- An occurrence of a string without the separator stands on one side of it. -/
theorem infix_append_sep {o a b : Str} {c : Char} (ho : c ∉ o) (h : o <:+: a ++ c :: b) :
    o <:+: a ∨ o <:+: b := by
  obtain ⟨l, r, hlr⟩ := h
  rw [List.append_assoc] at hlr
  rcases List.append_eq_append_iff.mp hlr with ⟨a', ha, hor⟩ | ⟨a', hl, hor⟩
  · rcases List.append_eq_append_iff.mp hor with ⟨d, hd, _⟩ | ⟨d, ho', hcd⟩
    · exact Or.inl ⟨l, d, by rw [ha, hd, List.append_assoc]⟩
    · cases d with
      | nil => exact Or.inl ⟨l, [], by rw [ha, ho']; simp⟩
      | cons x d =>
        have hx : c = x := (List.cons.inj hcd).1
        exact absurd (by rw [ho', hx]; simp) ho
  · cases a' with
    | nil =>
      cases o with
      | nil => exact Or.inl (List.nil_infix)
      | cons x o =>
        have hx : c = x := (List.cons.inj hor).1
        exact absurd (by rw [hx]; simp) ho
    | cons x a' =>
      have hb : b = a' ++ (o ++ r) := (List.cons.inj hor).2
      exact Or.inr ⟨a', r, by rw [hb, List.append_assoc]⟩

theorem infix_join {o : Str} {c : Char} (ho : c ∉ o) {ws : List Str} (hne : ws ≠ [])
    (h : o <:+: join [c] ws) : ∃ w ∈ ws, o <:+: w := by
  induction ws with
  | nil => exact absurd rfl hne
  | cons w ws ih =>
    cases ws with
    | nil => exact ⟨w, by simp, by simpa using h⟩
    | cons v ws =>
      rw [join_cons_cons, List.singleton_append] at h
      rcases infix_append_sep ho h with h | h
      · exact ⟨w, by simp, h⟩
      · obtain ⟨u, hu, hou⟩ := ih (by simp) h
        exact ⟨u, List.mem_cons_of_mem w hu, hou⟩

/-! `replace`. -/

/-- The scan of `s.replace(old, new)`: `skip` characters of an occurrence are still to be
    passed over. -/
def replaceFrom (old new : Str) : Nat → Str → Str
  | _, [] => []
  | skip + 1, _ :: s => replaceFrom old new skip s
  | 0, c :: s =>
    if startsWith old (c :: s) then new ++ replaceFrom old new (old.length - 1) s
    else c :: replaceFrom old new 0 s

/-- `s.replace(old, new)` for a nonempty `old`. -/
def replace (old new s : Str) : Str := replaceFrom old new 0 s

theorem replaceFrom_skip (old new a b : Str) :
    replaceFrom old new a.length (a ++ b) = replaceFrom old new 0 b := by
  induction a with
  | nil => rfl
  | cons c a ih => exact ih

theorem replace_cons_of_ne {old new s : Str} {c : Char} (h : ¬ old <+: c :: s) :
    replace old new (c :: s) = c :: replace old new s := by
  rw [replace, replaceFrom, if_neg (by rwa [startsWith_iff])]
  rfl

/-- A string without an occurrence is left alone. -/
theorem replace_eq_self {old new s : Str} (h : ¬ old <:+: s) : replace old new s = s := by
  induction s with
  | nil => rfl
  | cons c s ih =>
    rw [replace_cons_of_ne (fun hp => h hp.isInfix),
      ih (fun hi => h (hi.trans (List.suffix_cons c s).isInfix))]

theorem replace_append {old new s : Str} (h : old ≠ []) :
    replace old new (old ++ s) = new ++ replace old new s := by
  cases old with
  | nil => exact absurd rfl h
  | cons c old =>
    rw [List.cons_append, replace, replaceFrom,
      if_pos (by rw [← List.cons_append]; exact startsWith_append _ _)]
    simp only [List.length_cons, Nat.add_sub_cancel]
    rw [replaceFrom_skip]
    rfl

/-- What `old` and `new` both start with keeps its place: that many characters at the start
    of any string are left alone. -/
theorem take_replace {p old new : Str} (hne : old ≠ []) (ho : p <+: old) (hn : p <+: new) (s : Str) :
    ∀ n, n ≤ p.length → (replace old new s).take n = s.take n := by
  induction s with
  | nil => intro n _; rfl
  | cons c s ih =>
    intro n hle
    by_cases hold : old <+: c :: s
    · obtain ⟨r, hr⟩ := hold
      obtain ⟨o, rfl⟩ := ho
      obtain ⟨m, rfl⟩ := hn
      rw [← hr, replace_append hne]
      simp only [List.append_assoc]
      rw [List.take_append_of_le_length hle, List.take_append_of_le_length hle]
    · rw [replace_cons_of_ne hold]
      cases n with
      | zero => rfl
      | succ n => rw [List.take_succ_cons, List.take_succ_cons, ih n (by omega)]

/-- An occurrence in the result that cannot touch the end of `new`, and is no longer than what
    `old` and `new` share plus one, is an occurrence in the string, and none of `old`. -/
theorem infix_replace {p old new o : Str} {d : Char} (hne : old ≠ []) (ho : p <+: old)
    (hn : p <+: new ++ [d]) (hd : d ∉ o) (hnew : ¬ o <:+: new) (hlen : o.length ≤ p.length + 1)
    (s : Str) (h : o <:+: replace old (new ++ [d]) s) :
    ∃ t, t <:+ s ∧ o <+: t ∧ ¬ old <+: t := by
  induction hk : s.length using Nat.strong_induction_on generalizing s with
  | _ k ih =>
    cases s with
    | nil => exact absurd (h.trans List.nil_infix) hnew
    | cons c s =>
      by_cases hold : old <+: c :: s
      · -- past the inserted text, as `d` ends it
        obtain ⟨r, hr⟩ := hold
        rw [← hr, replace_append hne, List.append_assoc, List.singleton_append] at h
        have hpos : 0 < old.length := List.length_pos_iff.mpr hne
        have hr' : r.length < k := by
          have := congrArg List.length hr
          simp only [List.length_append] at this
          omega
        rcases infix_append_sep hd h with h | h
        · exact absurd h hnew
        · obtain ⟨t, ht, hot, hnot⟩ := ih r.length hr' r h rfl
          exact ⟨t, ht.trans ⟨old, hr⟩, hot, hnot⟩
      · rw [replace_cons_of_ne hold] at h
        rcases List.infix_cons_iff.mp h with h | h
        · -- it starts here: what follows is the same in both for as long as it is
          refine ⟨c :: s, List.suffix_refl _, ?_, hold⟩
          cases o with
          | nil => exact List.nil_prefix
          | cons x o =>
            obtain ⟨hx, hpre⟩ := List.cons_prefix_cons.mp h
            refine List.cons_prefix_cons.mpr ⟨hx, ?_⟩
            have htake := List.prefix_iff_eq_take.mp hpre
            rw [take_replace hne ho hn s _ (by simpa using hlen)] at htake
            exact List.prefix_iff_eq_take.mpr htake
        · obtain ⟨t, ht, hot, hnot⟩ := ih s.length (by simp at hk; omega) s h rfl
          exact ⟨t, ht.trans (List.suffix_cons c s), hot, hnot⟩

/-- Replacing one character by another is a map. -/
theorem replace_char (a b : Char) (s : Str) :
    replace [a] [b] s = s.map (fun c => if c = a then b else c) := by
  induction s with
  | nil => rfl
  | cons c s ih =>
    by_cases hc : c = a
    · subst hc
      have h := @replace_append [c] [b] s (by simp)
      rw [List.singleton_append] at h
      rw [h, ih]
      simp
    · rw [replace_cons_of_ne, ih]
      · simp [hc]
      · intro h
        obtain ⟨t, ht⟩ := h
        simp only [List.cons_append, List.cons.injEq] at ht
        exact hc ht.1.symm

theorem replace_join (a b : Char) : ∀ {ws : List Str}, (∀ w ∈ ws, a ∉ w) →
    replace [a] [b] (join [a] ws) = join [b] ws := by
  intro ws
  induction ws with
  | nil => intro _; rfl
  | cons w ws ih =>
    intro h
    have hw : w.map (fun c => if c = a then b else c) = w := by
      calc w.map (fun c => if c = a then b else c)
          = w.map id := by
            apply List.map_congr_left
            intro c hc
            exact if_neg (fun (he : c = a) => h w (by simp) (he ▸ hc))
        _ = w := List.map_id w
    cases ws with
    | nil => rw [join_singleton, join_singleton, replace_char, hw]
    | cons v ws =>
      have ih := ih (fun u hu => h u (List.mem_cons_of_mem w hu))
      rw [replace_char] at ih ⊢
      rw [join_cons_cons, join_cons_cons, List.map_append, List.map_append, hw, ih]
      simp

/-! The order of strings, by code points. -/

def strLe : Str → Str → Bool
  | [], _ => true
  | _ :: _, [] => false
  | a :: s, b :: t => if a = b then strLe s t else decide (a.toNat < b.toNat)

theorem strLe_trans : ∀ a b c : Str, strLe a b = true → strLe b c = true → strLe a c = true
  | [], _, _, _, _ => rfl
  | _ :: _, [], _, h, _ => nomatch h
  | _ :: _, _ :: _, [], _, h => nomatch h
  | a :: s, b :: t, c :: u, hab, hbc => by
    simp only [strLe] at hab hbc ⊢
    split at hab
    · next hab' =>
      subst hab'
      split at hbc
      · next hac =>
        rw [if_pos hac]
        exact strLe_trans s t u hab hbc
      · next hac =>
        rw [if_neg hac]
        exact hbc
    · next hab' =>
      rw [decide_eq_true_eq] at hab
      split at hbc
      · next hbc' =>
        subst hbc'
        rw [if_neg hab', decide_eq_true_eq]
        exact hab
      · rw [decide_eq_true_eq] at hbc
        have hac : a ≠ c := by
          intro h
          subst h
          omega
        rw [if_neg hac, decide_eq_true_eq]
        omega

theorem strLe_total : ∀ a b : Str, (strLe a b || strLe b a) = true
  | [], _ => rfl
  | _ :: _, [] => rfl
  | a :: s, b :: t => by
    by_cases h : a = b
    · subst h
      simpa only [strLe, if_pos] using strLe_total s t
    · have hne : a.toNat ≠ b.toNat := fun hn => h (Char.toNat_inj.mp hn)
      simp only [strLe, if_neg h, if_neg (Ne.symm h), Bool.or_eq_true, decide_eq_true_eq]
      omega

theorem strLe_antisymm : ∀ a b : Str, strLe a b = true → strLe b a = true → a = b
  | [], [], _, _ => rfl
  | [], _ :: _, _, h => nomatch h
  | _ :: _, [], h, _ => nomatch h
  | a :: s, b :: t, hab, hba => by
    by_cases h : a = b
    · subst h
      simp only [strLe, if_pos] at hab hba
      rw [strLe_antisymm s t hab hba]
    · simp only [strLe, if_neg h, if_neg (Ne.symm h), decide_eq_true_eq] at hab hba
      omega

/-- Two strings that differ early are ordered by where they do. -/
theorem strLe_append {h k : Str} (hlen : h.length = k.length) (hne : h ≠ k) (s t : Str) :
    strLe (h ++ s) (k ++ t) = strLe h k := by
  induction h generalizing k with
  | nil =>
    rw [List.length_nil, eq_comm, List.length_eq_zero_iff] at hlen
    exact absurd hlen.symm hne
  | cons a h ih =>
    cases k with
    | nil => cases hlen
    | cons b k =>
      simp only [List.cons_append, strLe]
      by_cases hab : a = b
      · subst hab
        rw [if_pos rfl, if_pos rfl]
        exact ih (Nat.succ.inj hlen) (fun hk => hne (by rw [hk]))
      · rw [if_neg hab, if_neg hab]

end Python
