import RiscvToolchain.Posix.FileSystem

/- The contents of one directory tree, links included, and the file tests of the
   shell on it. A path is resolved name by name from the root of the tree, and a link
   on the way is replaced by its target; what leads out of the tree is not found. A
   tree with fewer nodes finds no more than the whole one (`resolve_mono`), so a
   removal that stops half-way cannot make a test succeed, and a new file cannot make
   one fail. -/
namespace Posix
open Python

inductive Component where
  | name (n : Name)
  | up
  deriving DecidableEq

inductive TreeNode where
  | file (executable : Bool) (bytes : Bytes)
  | dir
  | symlink (target : List Component)
  | special
  deriving DecidableEq

/-- What stands at a path of the tree, innermost name first; `[]` is the directory itself. -/
abbrev Tree := Path → Option TreeNode

namespace Tree

/-- The empty directory. -/
def empty : Tree := fun _ => none

/-- The place a path leads to from the directory `cur`; the last name may be missing there.
    The fuel bounds the names and links that are followed. -/
def resolve (t : Tree) : Nat → Path → List Component → Option Path
  | 0, _, _ => none
  | _ + 1, cur, [] => some cur
  | _ + 1, [], .up :: _ => none
  | fuel + 1, _ :: d, .up :: rest => resolve t fuel d rest
  | fuel + 1, cur, .name n :: rest =>
    match t (n :: cur) with
    | none => if rest = [] then some (n :: cur) else none
    | some .dir => resolve t fuel (n :: cur) rest
    | some (.symlink target) => resolve t fuel cur (target ++ rest)
    | some _ => if rest = [] then some (n :: cur) else none

/-- The names and links the system follows. -/
def maxSteps : Nat := 4096

/-- The node at a path; the root of the tree is a directory. -/
def node (t : Tree) (p : Path) : Option TreeNode := if p = [] then some .dir else t p

/-- What a path from the root of the tree leads to. -/
def find (t : Tree) (path : List Component) : Option TreeNode :=
  (t.resolve maxSteps [] path).bind t.node

/-- `[ -f root/path ]`. -/
def isFile (t : Tree) (path : List Component) : Bool :=
  match t.find path with
  | some (.file _ _) => true
  | _ => false

/-- `[ -x root/path ]`. -/
def isExecutable (t : Tree) (path : List Component) : Bool :=
  match t.find path with
  | some (.file executable _) => executable
  | some .dir => true
  | _ => false

/-- `touch root/path`: an empty file where nothing is; `none` is its failure. -/
def touch (t : Tree) (path : List Component) : Option Tree :=
  (t.resolve maxSteps [] path).map fun q =>
    if (t.node q).isNone then fun p => if p = q then some (.file false []) else t p else t

/-- The tree as a subdirectory of another. -/
def graft (t : Tree) (n : Name) (sub : Tree) : Tree := fun p =>
  if p.getLast? = some n then (if p.dropLast = [] then some .dir else sub p.dropLast) else t p

/-! Fewer nodes. -/

/-- The nodes of `t` are nodes of `u`. -/
def Sub (t u : Tree) : Prop := ∀ p, t p = none ∨ t p = u p

theorem Sub.node {t u : Tree} (h : Sub t u) {p : Path} {x : TreeNode} (hp : t.node p = some x) :
    u.node p = some x := by
  rw [Tree.node] at hp ⊢
  split
  · rename_i hroot
    rwa [if_pos hroot] at hp
  · rename_i hroot
    rw [if_neg hroot] at hp
    rcases h p with hnone | hsame
    · rw [hnone] at hp
      cases hp
    · rw [← hsame, hp]

theorem resolve_mono {t u : Tree} (h : Sub t u) : ∀ (fuel : Nat) {cur : Path}
    {path : List Component} {q : Path} {x : TreeNode}, t.resolve fuel cur path = some q →
    t.node q = some x → u.resolve fuel cur path = some q
  | 0, _, _, _, _, hr, _ => by cases hr
  | _ + 1, cur, [], _, _, hr, _ => hr
  | _ + 1, [], .up :: _, _, _, hr, _ => by cases hr
  | fuel + 1, _ :: d, .up :: rest, _, _, hr, hx => @resolve_mono t u h fuel d rest _ _ hr hx
  | fuel + 1, cur, .name n :: rest, q, x, hr, hx => by
    rw [resolve] at hr ⊢
    cases ht : t (n :: cur) with
    | none =>
      -- the path ends at a name that is missing, so there is no node there
      simp only [ht, Option.ite_none_right_eq_some, Option.some.injEq] at hr
      rw [← hr.2, node, if_neg (by simp), ht] at hx
      cases hx
    | some y =>
      have hu : u (n :: cur) = some y := by
        have hnode : u.node (n :: cur) = some y := h.node (by rw [node, if_neg (by simp), ht])
        rwa [node, if_neg (by simp)] at hnode
      simp only [ht] at hr
      simp only [hu]
      cases y with
      | dir => exact resolve_mono h fuel hr hx
      | symlink target => exact resolve_mono h fuel hr hx
      | file e b => exact hr
      | special => exact hr

theorem find_mono {t u : Tree} (h : Sub t u) {path : List Component} {x : TreeNode}
    (hx : t.find path = some x) : u.find path = some x := by
  obtain ⟨q, hq, hx⟩ := Option.bind_eq_some_iff.mp hx
  rw [find, resolve_mono h _ hq hx, Option.bind_some]
  exact h.node hx

theorem isFile_mono {t u : Tree} (h : Sub t u) {path : List Component}
    (hf : t.isFile path = true) : u.isFile path = true := by
  rw [isFile] at hf ⊢
  cases hx : t.find path with
  | none =>
    rw [hx] at hf
    cases hf
  | some x =>
    rw [hx] at hf
    rw [find_mono h hx]
    exact hf

theorem isExecutable_mono {t u : Tree} (h : Sub t u) {path : List Component}
    (hf : t.isExecutable path = true) : u.isExecutable path = true := by
  rw [isExecutable] at hf ⊢
  cases hx : t.find path with
  | none =>
    rw [hx] at hf
    cases hf
  | some x =>
    rw [hx] at hf
    rw [find_mono h hx]
    exact hf

/-- `touch` only adds. -/
theorem sub_touch {t u : Tree} {path : List Component} (h : t.touch path = some u) : Sub t u := by
  obtain ⟨q, -, rfl⟩ := Option.map_eq_some_iff.mp h
  intro p
  split
  · rename_i hq
    by_cases hp : p = q
    · subst hp
      rw [Option.isNone_iff_eq_none, node] at hq
      split at hq
      · cases hq
      · exact Or.inl hq
    · exact Or.inr (if_neg hp).symm
  · exact Or.inr rfl

end Tree
end Posix
