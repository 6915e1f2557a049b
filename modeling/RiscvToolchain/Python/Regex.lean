import RiscvToolchain.Python.Str
import RiscvToolchain.Python.Dict

/- Regular expressions as Python's `re` runs them: a backtracking search that tries
   the alternatives in order and a greedy repetition from its longest match down. A
   run is the list of the ways to match, in the order in which they are tried, so the
   match is its head. Repetition is of one character class, which is all the scripts
   use. The rules invert a run: what each way to match says about the text. -/
namespace Python

inductive Re where
  | eps
  | cls (p : Char → Bool)
  | star (p : Char → Bool)
  | seq (r s : Re)
  | alt (r s : Re)
  | group (k : Nat) (r : Re)
  | eol

namespace Re

/-- `.`. -/
def dot (c : Char) : Bool := c != '\n'

def lit (w : Str) : Re := w.foldr (fun c r => .seq (.cls (· == c)) r) .eps

/-- A point of a run: the text passed, the text ahead and the groups. -/
structure Point where
  before : Str
  rest : Str
  groups : Dict Nat Str

/-- `n` characters further. -/
def Point.advance (pt : Point) (n : Nat) : Point :=
  { pt with before := pt.before ++ pt.rest.take n, rest := pt.rest.drop n }

/-- The ways to match, in the order in which they are tried. -/
def run : Re → Point → List Point
  | .eps, pt => [pt]
  | .cls p, pt =>
    match pt.rest with
    | c :: _ => if p c then [pt.advance 1] else []
    | [] => []
  | .star p, pt =>
    (List.range ((pt.rest.takeWhile p).length + 1)).reverse.map pt.advance
  | .seq r s, pt => (run r pt).flatMap (run s)
  | .alt r s, pt => run r pt ++ run s pt
  | .group k r, pt => (run r pt).map fun pt' =>
      { pt' with groups := pt'.groups.set k (pt'.before.drop pt.before.length) }
  | .eol, pt => if pt.rest = [] ∨ pt.rest = ['\n'] then [pt] else []

/-- `re.match(r, s)`: the groups of the first way to match at the start of the text. -/
def pyMatch (r : Re) (s : Str) : Option (Dict Nat Str) :=
  (run r ⟨[], s, Dict.empty⟩).head?.map Point.groups

/-! What a way to match says. -/

/-- `pt'` is reached from `pt` by passing over `m`. -/
def Passed (pt pt' : Point) (m : Str) : Prop :=
  pt.rest = m ++ pt'.rest ∧ pt'.before = pt.before ++ m

theorem Passed.trans {a b c : Point} {m n : Str} (h₁ : Passed a b m) (h₂ : Passed b c n) :
    Passed a c (m ++ n) := by
  refine ⟨?_, ?_⟩
  · rw [h₁.1, h₂.1, List.append_assoc]
  · rw [h₂.2, h₁.2, List.append_assoc]

theorem passed_advance (pt : Point) (n : Nat) : Passed pt (pt.advance n) (pt.rest.take n) :=
  ⟨(List.take_append_drop n pt.rest).symm, rfl⟩

theorem mem_run_cls {p : Char → Bool} {pt pt' : Point} (h : pt' ∈ run (.cls p) pt) :
    ∃ c, p c = true ∧ Passed pt pt' [c] ∧ pt'.groups = pt.groups := by
  rw [run] at h
  split at h
  · rename_i c s hrest
    split at h
    · rename_i hp
      obtain rfl := List.mem_singleton.mp h
      have hpass := passed_advance pt 1
      rw [hrest] at hpass
      exact ⟨c, hp, hpass, rfl⟩
    · cases h
  · cases h

theorem mem_run_star {p : Char → Bool} {pt pt' : Point} (h : pt' ∈ run (.star p) pt) :
    ∃ m, (∀ c ∈ m, p c = true) ∧ Passed pt pt' m ∧ pt'.groups = pt.groups := by
  obtain ⟨n, hn, rfl⟩ := List.mem_map.mp h
  have hle : n ≤ (pt.rest.takeWhile p).length := by
    simp only [List.mem_reverse, List.mem_range] at hn
    omega
  refine ⟨pt.rest.take n, ?_, passed_advance pt n, rfl⟩
  intro c hc
  have htake : pt.rest.take n <+: pt.rest.takeWhile p := by
    apply List.prefix_of_prefix_length_le (List.take_prefix n _) (List.takeWhile_prefix p)
    rw [List.length_take]
    omega
  exact List.mem_takeWhile_imp (htake.subset hc)

theorem mem_run_seq {r s : Re} {pt pt' : Point} (h : pt' ∈ run (.seq r s) pt) :
    ∃ mid, mid ∈ run r pt ∧ pt' ∈ run s mid := List.mem_flatMap.mp h

theorem mem_run_lit {w : Str} : ∀ {pt pt' : Point}, pt' ∈ run (lit w) pt →
    Passed pt pt' w ∧ pt'.groups = pt.groups := by
  induction w with
  | nil =>
    intro pt pt' h
    obtain rfl := List.mem_singleton.mp h
    exact ⟨⟨rfl, by simp⟩, rfl⟩
  | cons c w ih =>
    intro pt pt' h
    obtain ⟨mid, hmid, h⟩ := mem_run_seq h
    obtain ⟨x, hx, hpass, hg⟩ := mem_run_cls hmid
    obtain ⟨hpass', hg'⟩ := ih h
    obtain rfl : x = c := by simpa using hx
    exact ⟨hpass.trans hpass', hg'.trans hg⟩

theorem mem_run_group {k : Nat} {r : Re} {pt pt' : Point} (h : pt' ∈ run (.group k r) pt) :
    ∃ q ∈ run r pt, ∀ m, Passed pt q m →
      Passed pt pt' m ∧ pt'.groups = q.groups.set k m := by
  obtain ⟨q, hq, rfl⟩ := List.mem_map.mp h
  refine ⟨q, hq, ?_⟩
  intro m hpass
  refine ⟨hpass, ?_⟩
  show q.groups.set k (q.before.drop pt.before.length) = _
  rw [hpass.2, List.drop_left]

theorem mem_run_eol {pt pt' : Point} (h : pt' ∈ run .eol pt) :
    pt' = pt ∧ (pt.rest = [] ∨ pt.rest = ['\n']) := by
  rw [run] at h
  split at h
  · rename_i hrest
    exact ⟨List.mem_singleton.mp h, hrest⟩
  · cases h

end Re
end Python
