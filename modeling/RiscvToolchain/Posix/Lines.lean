import RiscvToolchain.Python.Str

/- Lines of text as `sort` and bash's `mapfile -t` see them. A listing that prints
   one name a line is read back as lines, not as names: a name with newlines in it
   gives several (`lines_listing`). -/
namespace Posix
open Python

/-- The lines of a text, without their newlines; the last one may lack its newline. -/
def lines (text : Str) : List Str :=
  let ls := split '\n' text
  if ls.getLast? = some [] then ls.dropLast else ls

/-- One line each, with its newline. -/
def unlines (ls : List Str) : Str := ls.flatMap (· ++ ['\n'])

/-- An order in which `sort` puts the lines. -/
structure Collation where
  le : Str → Str → Bool
  trans : ∀ a b c, le a b = true → le b c = true → le a c = true
  total : ∀ a b, (le a b || le b a) = true
  antisymm : ∀ a b, le a b = true → le b a = true → a = b

/-- `sort`. -/
def sort (c : Collation) (text : Str) : Str := unlines ((lines text).mergeSort c.le)

theorem lines_append (a b : Str) : lines (a ++ '\n' :: b) = split '\n' a ++ lines b := by
  have hb := split_ne_nil '\n' b
  have hlast : (split '\n' a ++ split '\n' b).getLast? = (split '\n' b).getLast? :=
    List.getLast?_append_of_ne_nil _ hb
  have hdrop : (split '\n' a ++ split '\n' b).dropLast = split '\n' a ++ (split '\n' b).dropLast :=
    List.dropLast_append_of_ne_nil hb
  rw [lines, lines, split_append_sep, hlast, hdrop]
  split <;> rfl

/-- A printed line with newlines in it is read back as several lines. -/
theorem lines_listing (ls : List Str) : lines (unlines ls) = ls.flatMap (split '\n') := by
  induction ls with
  | nil => rfl
  | cons l ls ih =>
    rw [unlines, List.flatMap_cons, List.append_assoc, List.singleton_append, lines_append,
      List.flatMap_cons, ← ih, unlines]

theorem flatMap_split_of_not_mem {ls : List Str} (h : ∀ l ∈ ls, '\n' ∉ l) :
    ls.flatMap (split '\n') = ls := by
  induction ls with
  | nil => rfl
  | cons l ls ih =>
    rw [List.flatMap_cons, split_of_not_mem (h l (by simp)),
      ih (fun x hx => h x (by simp [hx])), List.singleton_append]

theorem not_mem_of_mem_lines {text l : Str} (h : l ∈ lines text) : '\n' ∉ l := by
  apply not_mem_of_mem_split (s := text)
  rw [lines] at h
  split at h
  · exact List.dropLast_subset _ h
  · exact h

/-- What is sorted is what was read. -/
theorem lines_sort (c : Collation) (text : Str) :
    lines (sort c text) = (lines text).mergeSort c.le := by
  rw [sort, lines_listing, flatMap_split_of_not_mem]
  intro l hl
  exact not_mem_of_mem_lines ((List.mergeSort_perm _ _).mem_iff.mp hl)

/-- Sorting forgets the order and nothing else. -/
theorem mergeSort_eq_iff_perm (c : Collation) {ls ms : List Str} :
    ls.mergeSort c.le = ms.mergeSort c.le ↔ ls.Perm ms := by
  refine ⟨?_, ?_⟩
  · intro h
    calc ls.Perm (ls.mergeSort c.le) := (List.mergeSort_perm ls c.le).symm
      _ = ms.mergeSort c.le := h
      List.Perm _ ms := List.mergeSort_perm ms c.le
  · intro h
    have hperm : (ls.mergeSort c.le).Perm (ms.mergeSort c.le) :=
      ((List.mergeSort_perm ls c.le).trans h).trans (List.mergeSort_perm ms c.le).symm
    apply hperm.eq_of_pairwise (fun a b _ _ => c.antisymm a b)
    · exact List.pairwise_mergeSort c.trans c.total ls
    · exact List.pairwise_mergeSort c.trans c.total ms

end Posix
