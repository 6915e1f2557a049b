import RiscvToolchain.Posix.FileSystem

/- `os.path.commonpath` of two strings, and what it says of two absolute paths: that
   the common path is one of the two means that one lies on the way to the other
   (`commonpath_mem_iff`). -/
namespace Python
open Posix

/-- The names in a path's string. -/
def components (s : Str) : List Str := (split '/' s).filter fun c => c ≠ [] && c ≠ ['.']

def commonPrefix : List Str → List Str → List Str
  | a :: as, b :: bs => if a = b then a :: commonPrefix as bs else []
  | _, _ => []

/-- `os.path.commonpath((first, second))`; `none` is the `ValueError`. -/
def commonpath (first second : Str) : Option Str :=
  let isabs := startsWith ['/'] first
  if isabs = startsWith ['/'] second then
    some ((if isabs then ['/'] else []) ++
      join ['/'] (commonPrefix (components first) (components second)))
  else none

theorem commonPrefix_eq_left_iff : ∀ {as bs : List Str}, commonPrefix as bs = as ↔ as <+: bs
  | [], bs => by simp [commonPrefix]
  | a :: as, [] => by simp [commonPrefix]
  | a :: as, b :: bs => by
    rw [commonPrefix, List.cons_prefix_cons]
    split
    · rename_i hab
      rw [List.cons.injEq, commonPrefix_eq_left_iff]
      simp [hab]
    · rename_i hab
      simp [hab]

theorem commonPrefix_comm : ∀ as bs : List Str, commonPrefix as bs = commonPrefix bs as
  | [], [] => rfl
  | [], b :: bs => rfl
  | a :: as, [] => rfl
  | a :: as, b :: bs => by
    rw [commonPrefix, commonPrefix]
    split
    · rename_i hab
      rw [if_pos hab.symm, hab, commonPrefix_comm as bs]
    · rename_i hab
      rw [if_neg (Ne.symm hab)]

theorem commonPrefix_isPrefix : ∀ as bs : List Str, commonPrefix as bs <+: as
  | [], bs => by simp [commonPrefix]
  | a :: as, [] => by simp [commonPrefix]
  | a :: as, b :: bs => by
    rw [commonPrefix]
    split
    · exact List.cons_prefix_cons.mpr ⟨rfl, commonPrefix_isPrefix as bs⟩
    · exact List.nil_prefix

/-! Strings of paths. -/

/-- The names of a path as strings, outermost first. -/
def texts (p : Path) : List Str := p.reverse.map Name.text

theorem texts_isPrefix_iff {p q : Path} : texts p <+: texts q ↔ p <:+ q := by
  have hinj : Function.Injective Name.text := fun _ _ h => Name.ext h
  rw [texts, texts, List.prefix_map_iff_of_injective hinj, List.reverse_prefix]

theorem components_str {ws : List Str} (h : ∀ w ∈ ws, ∃ n : Name, n.text = w) :
    components ('/' :: join ['/'] ws) = ws := by
  have hkeep : ws.filter (fun c => c ≠ [] && c ≠ ['.']) = ws := by
    rw [List.filter_eq_self]
    intro w hw
    obtain ⟨n, rfl⟩ := h w hw
    simp [n.valid.1, n.valid.2.2.1]
  rw [components, split, if_pos rfl, List.filter_cons_of_neg (by simp)]
  cases ws with
  | nil => rfl
  | cons w ws =>
    rw [split_join (by simp), hkeep]
    intro v hv
    obtain ⟨n, rfl⟩ := h v hv
    exact n.valid.2.1

theorem mem_texts {p : Path} {w : Str} (h : w ∈ texts p) : ∃ n : Name, n.text = w := by
  obtain ⟨n, -, hn⟩ := List.mem_map.mp h
  exact ⟨n, hn⟩

/-- One of two absolute paths is their common path when it lies on the way to the other. -/
theorem commonpath_mem_iff {p q : Path} :
    (∃ c, commonpath p.str q.str = some c ∧ (c = p.str ∨ c = q.str)) ↔ p <:+ q ∨ q <:+ p := by
  have hc : commonpath p.str q.str = some ('/' :: join ['/'] (commonPrefix (texts p) (texts q))) := by
    have hp : components p.str = texts p := components_str (fun _ => mem_texts)
    have hq : components q.str = texts q := components_str (fun _ => mem_texts)
    rw [commonpath, hp, hq]
    rfl
  have hname : ∀ w ∈ commonPrefix (texts p) (texts q), ∃ n : Name, n.text = w := fun w hw =>
    mem_texts ((commonPrefix_isPrefix (texts p) (texts q)).subset hw)
  -- the string of a list of names determines the list
  have hinj : ∀ r : Path, '/' :: join ['/'] (commonPrefix (texts p) (texts q)) = r.str ↔
      commonPrefix (texts p) (texts q) = texts r := by
    intro r
    refine ⟨?_, ?_⟩
    · intro h
      rw [← components_str hname, h]
      exact components_str (fun _ => mem_texts)
    · intro h
      rw [h]
      rfl
  constructor
  · intro ⟨c, hc', h⟩
    rw [hc, Option.some.injEq] at hc'
    subst hc'
    rw [hinj, hinj] at h
    rcases h with h | h
    · exact Or.inl (texts_isPrefix_iff.mp (commonPrefix_eq_left_iff.mp h))
    · rw [commonPrefix_comm] at h
      exact Or.inr (texts_isPrefix_iff.mp (commonPrefix_eq_left_iff.mp h))
  · intro h
    refine ⟨_, hc, ?_⟩
    rw [hinj, hinj]
    rcases h with h | h
    · exact Or.inl (commonPrefix_eq_left_iff.mpr (texts_isPrefix_iff.mpr h))
    · refine Or.inr ?_
      rw [commonPrefix_comm]
      exact commonPrefix_eq_left_iff.mpr (texts_isPrefix_iff.mpr h)

end Python
