import RiscvToolchain.Python.Regex

/- Every match of a regular expression in a text, and the text with each of them
   replaced: `re.finditer`, `re.findall` and `re.sub` for an expression that matches no
   empty text. The scan goes from left to right and goes on after the match it has
   found, so that what it finds after a piece of text without a match is what it finds
   without that piece (`findFrom_pass`), and the same for what it leaves
   (`subFrom_pass`). -/
namespace Python.Re

/-- The match at the start of a text: its `before` is what matched, its `rest` what follows. -/
def matchHere (r : Re) (s : Str) : Option Point := (run r ⟨[], s, Dict.empty⟩).head?

/-- The scan: `skip` characters of a match are still to be passed over. -/
def findFrom (r : Re) : Nat → Str → List Point
  | _, [] => []
  | skip + 1, _ :: s => findFrom r skip s
  | 0, c :: s =>
    match matchHere r (c :: s) with
    | some pt => pt :: findFrom r (pt.before.length - 1) s
    | none => findFrom r 0 s

/-- `re.finditer`; `re.findall` is the groups of these. -/
def findIter (r : Re) (s : Str) : List Point := findFrom r 0 s

def subFrom (r : Re) (repl : Point → Str) : Nat → Str → Str
  | _, [] => []
  | skip + 1, _ :: s => subFrom r repl skip s
  | 0, c :: s =>
    match matchHere r (c :: s) with
    | some pt => repl pt ++ subFrom r repl (pt.before.length - 1) s
    | none => c :: subFrom r repl 0 s

/-- One escape of a replacement text: a control character, or a backslash. -/
def templateEscape (c : Char) : Option Char :=
  [('a', '\x07'), ('b', '\x08'), ('f', '\x0c'), ('n', '\n'), ('r', '\r'), ('t', '\t'),
    ('v', '\x0b'), ('0', '\x00'), ('\\', '\\')].lookup c

/-- The replacement text for a match `whole` of an expression without groups: `\g<0>` is the
    match, another reference or an escape of a letter is an error. -/
def expandTemplate (whole : Str) : Str → Option Str
  | [] => some []
  | '\\' :: 'g' :: '<' :: '0' :: '>' :: s => (expandTemplate whole s).map (whole ++ ·)
  | ['\\'] => none
  | '\\' :: c :: s =>
    match templateEscape c with
    | some x => (expandTemplate whole s).map (x :: ·)
    | none => if c.isAlphanum then none else (expandTemplate whole s).map ('\\' :: c :: ·)
  | c :: s => (expandTemplate whole s).map (c :: ·)

/-- `re.sub(r, template, s)`; `none` is the exception of a bad template. -/
def pySub (r : Re) (template s : Str) : Option Str :=
  if (expandTemplate [] template).isSome then
    some (subFrom r (fun pt => (expandTemplate pt.before template).getD []) 0 s)
  else none

/-! Rules that build a run. -/

theorem mem_run_lit_append (w : Str) : ∀ (b s : Str) (g : Dict Nat Str),
    ⟨b ++ w, s, g⟩ ∈ run (lit w) ⟨b, w ++ s, g⟩ := by
  induction w with
  | nil =>
    intro b s g
    rw [List.append_nil]
    exact List.mem_singleton.mpr rfl
  | cons c w ih =>
    intro b s g
    refine List.mem_flatMap.mpr ⟨⟨b ++ [c], w ++ s, g⟩, ?_, ?_⟩
    · simp [run, Point.advance]
    · rw [show b ++ c :: w = (b ++ [c]) ++ w by simp]
      exact ih (b ++ [c]) s g

theorem mem_run_star_append {p : Char → Bool} {m : Str} (hm : ∀ c ∈ m, p c = true) (b s : Str)
    (g : Dict Nat Str) : ⟨b ++ m, s, g⟩ ∈ run (.star p) ⟨b, m ++ s, g⟩ := by
  have hle : m.length ≤ ((m ++ s).takeWhile p).length := by
    rw [List.takeWhile_append_of_pos hm, List.length_append]
    omega
  refine List.mem_map.mpr ⟨m.length, ?_, by simp [Point.advance]⟩
  simp only [List.mem_reverse, List.mem_range]
  omega

theorem mem_run_seq_of {r s : Re} {pt mid pt' : Point} (h₁ : mid ∈ run r pt)
    (h₂ : pt' ∈ run s mid) : pt' ∈ run (.seq r s) pt := List.mem_flatMap.mpr ⟨mid, h₁, h₂⟩

/-- Whatever the way, the text that is passed is the text that is there. -/
theorem passed_of_mem_run (r : Re) : ∀ {pt pt' : Point}, pt' ∈ run r pt → ∃ m, Passed pt pt' m := by
  induction r with
  | eps =>
    intro pt pt' h
    obtain rfl := List.mem_singleton.mp h
    exact ⟨[], rfl, by simp⟩
  | cls p =>
    intro pt pt' h
    obtain ⟨c, -, hpass, -⟩ := mem_run_cls h
    exact ⟨[c], hpass⟩
  | star p =>
    intro pt pt' h
    obtain ⟨m, -, hpass, -⟩ := mem_run_star h
    exact ⟨m, hpass⟩
  | seq r s ihr ihs =>
    intro pt pt' h
    obtain ⟨mid, hr, hs⟩ := mem_run_seq h
    obtain ⟨m, hm⟩ := ihr hr
    obtain ⟨n, hn⟩ := ihs hs
    exact ⟨m ++ n, hm.trans hn⟩
  | alt r s ihr ihs =>
    intro pt pt' h
    rcases List.mem_append.mp h with h | h
    · exact ihr h
    · exact ihs h
  | group k r ih =>
    intro pt pt' h
    obtain ⟨q, hq, hgroup⟩ := mem_run_group h
    obtain ⟨m, hm⟩ := ih hq
    exact ⟨m, (hgroup m hm).1⟩
  | eol =>
    intro pt pt' h
    obtain ⟨rfl, -⟩ := mem_run_eol h
    exact ⟨[], rfl, by simp⟩

theorem matchHere_append {r : Re} {s : Str} {pt : Point} (h : matchHere r s = some pt) :
    s = pt.before ++ pt.rest := by
  obtain ⟨m, hrest, hbefore⟩ := passed_of_mem_run r (List.mem_of_mem_head? h)
  rw [List.nil_append] at hbefore
  rw [hbefore]
  exact hrest

/-- What is found is a match somewhere in the text. -/
theorem mem_findFrom {r : Re} {pt : Point} : ∀ {skip : Nat} {s : Str}, pt ∈ findFrom r skip s →
    ∃ t, matchHere r t = some pt := by
  intro skip s h
  induction s generalizing skip with
  | nil =>
    cases skip <;> cases h
  | cons c s ih =>
    cases skip with
    | succ skip => exact ih h
    | zero =>
      rw [findFrom] at h
      cases hm : matchHere r (c :: s) with
      | none =>
        rw [hm] at h
        exact ih h
      | some q =>
        rw [hm] at h
        rcases List.mem_cons.mp h with rfl | h
        · exact ⟨_, hm⟩
        · exact ih h

/-! The scan, piece by piece. -/

section Scan
variable {r : Re} {repl : Point → Str}

/-- No match starts in `a`, where `b` follows. -/
def NoMatchIn (r : Re) (a b : Str) : Prop :=
  ∀ x c y, a = x ++ c :: y → matchHere r (c :: (y ++ b)) = none

theorem NoMatchIn.tail {c : Char} {a b : Str} (h : NoMatchIn r (c :: a) b) : NoMatchIn r a b := by
  intro x d y ha
  exact h (c :: x) d y (by rw [ha]; rfl)

theorem findFrom_skip (a b : Str) : findFrom r a.length (a ++ b) = findFrom r 0 b := by
  induction a with
  | nil => rfl
  | cons c a ih => exact ih

theorem subFrom_skip (a b : Str) : subFrom r repl a.length (a ++ b) = subFrom r repl 0 b := by
  induction a with
  | nil => rfl
  | cons c a ih => exact ih

theorem findFrom_pass {a b : Str} (h : NoMatchIn r a b) :
    findFrom r 0 (a ++ b) = findFrom r 0 b := by
  induction a with
  | nil => rfl
  | cons c a ih =>
    rw [List.cons_append, findFrom, h [] c a rfl]
    exact ih h.tail

theorem subFrom_pass {a b : Str} (h : NoMatchIn r a b) :
    subFrom r repl 0 (a ++ b) = a ++ subFrom r repl 0 b := by
  induction a with
  | nil => rfl
  | cons c a ih =>
    rw [List.cons_append, subFrom, h [] c a rfl, List.cons_append]
    exact congrArg (c :: ·) (ih h.tail)

theorem findFrom_match {s : Str} {pt : Point} (h : matchHere r s = some pt) (hne : pt.before ≠ []) :
    findFrom r 0 s = pt :: findFrom r 0 pt.rest := by
  obtain ⟨c, m, hm⟩ := List.exists_cons_of_ne_nil hne
  have hs : s = c :: (m ++ pt.rest) := by rw [matchHere_append h, hm, List.cons_append]
  rw [hs] at h ⊢
  rw [findFrom, h]
  show pt :: findFrom r (pt.before.length - 1) (m ++ pt.rest) = _
  rw [hm, List.length_cons, Nat.add_sub_cancel, findFrom_skip]

theorem subFrom_match {s : Str} {pt : Point} (h : matchHere r s = some pt) (hne : pt.before ≠ []) :
    subFrom r repl 0 s = repl pt ++ subFrom r repl 0 pt.rest := by
  obtain ⟨c, m, hm⟩ := List.exists_cons_of_ne_nil hne
  have hs : s = c :: (m ++ pt.rest) := by rw [matchHere_append h, hm, List.cons_append]
  rw [hs] at h ⊢
  rw [subFrom, h]
  show repl pt ++ subFrom r repl (pt.before.length - 1) (m ++ pt.rest) = _
  rw [hm, List.length_cons, Nat.add_sub_cancel, subFrom_skip]

/-- Where nothing is found nothing is replaced. -/
theorem subFrom_of_find_nil {s : Str} (h : findFrom r 0 s = []) : subFrom r repl 0 s = s := by
  induction s with
  | nil => rfl
  | cons c s ih =>
    rw [findFrom] at h
    rw [subFrom]
    cases hm : matchHere r (c :: s) with
    | some pt =>
      rw [hm] at h
      cases h
    | none =>
      rw [hm] at h
      exact congrArg (c :: ·) (ih h)

/-- The first match of a scan, and the text before it. -/
theorem findFrom_cons {s : Str} {pt : Point} {l : List Point} (h : findFrom r 0 s = pt :: l)
    (hne : ∀ t q, matchHere r t = some q → q.before ≠ []) :
    ∃ a, s = a ++ (pt.before ++ pt.rest) ∧ NoMatchIn r a (pt.before ++ pt.rest) ∧
      matchHere r (pt.before ++ pt.rest) = some pt ∧ findFrom r 0 pt.rest = l := by
  induction s with
  | nil => cases h
  | cons c s ih =>
    cases hm : matchHere r (c :: s) with
    | some q =>
      rw [findFrom_match hm (hne _ q hm)] at h
      obtain ⟨rfl, hl⟩ := List.cons.inj h
      have hs := matchHere_append hm
      rw [hs] at hm ⊢
      refine ⟨[], rfl, ?_, hm, hl⟩
      intro x d y hx
      cases x <;> cases hx
    | none =>
      -- no match here: the character goes to the text before the first one
      rw [findFrom, hm] at h
      obtain ⟨a, hs, hno, hmatch, hl⟩ := ih h
      refine ⟨c :: a, by rw [hs]; rfl, ?_, hmatch, hl⟩
      intro x d y hx
      cases x with
      | nil =>
        obtain ⟨hd, hy⟩ := List.cons.inj hx
        rw [← hd, ← hy, ← hs]
        exact hm
      | cons e x => exact hno x d y (List.cons.inj hx).2

end Scan

/-- A template without a backslash stands for itself. -/
theorem expandTemplate_of_not_mem (whole : Str) {s : Str} (h : '\\' ∉ s) :
    expandTemplate whole s = some s := by
  induction s with
  | nil => rfl
  | cons c s ih =>
    rw [List.mem_cons, not_or] at h
    have hc : c ≠ '\\' := Ne.symm h.1
    rw [expandTemplate]
    · rw [ih h.2]
      rfl
    · intro s' hs'
      exact absurd hs' hc
    · intro hs'
      exact absurd hs' hc
    · intro d s' hs'
      exact absurd hs' hc

end Python.Re
