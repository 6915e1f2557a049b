import RiscvToolchain.Python.Str
import RiscvToolchain.Python.Dict

/- A file system: what stands at every absolute path. Every entry lies in a
   directory, by construction (`FS.wf`), so nothing stands below a path that is
   absent or not a directory. Paths are lists of names, innermost first: the
   directory of `n :: d` is `d`, and `d` lies on the way to `p` when `d <:+ p`. The
   operations act on paths none of whose directories is a symbolic link; a link
   itself carries the path it resolves to. -/
namespace Posix
open Python

abbrev Bytes := List UInt8

/-- The name of a directory entry. -/
structure Name where
  text : Str
  valid : text ≠ [] ∧ '/' ∉ text ∧ text ≠ ['.'] ∧ text ≠ ['.', '.']

theorem Name.ext {m n : Name} (h : m.text = n.text) : m = n := by
  cases m; cases n; cases h; rfl

instance : DecidableEq Name := fun m n =>
  decidable_of_iff (m.text = n.text) ⟨Name.ext, fun h => h ▸ rfl⟩

abbrev Path := List Name

instance : LawfulBEq Path := inferInstanceAs (LawfulBEq (List Name))

/-- The path as a string. -/
def Path.str (p : Path) : Str := '/' :: join ['/'] (p.reverse.map Name.text)

inductive Node where
  | file (bytes : Bytes)
  | dir
  | symlink (target : Path)
  | special
  deriving DecidableEq

structure FS where
  nodes : Dict Path Node
  wf : ∀ (n : Name) (d : Path), nodes.get (n :: d) ≠ none → nodes.get d = some .dir

inductive Errno where
  | enoent | eexist | enotdir | eisdir | ebadf | eloop | other
  deriving DecidableEq, Repr

namespace FS

/-- The file system of a table in which every entry lies in a directory. -/
def ofDict (nodes : Dict Path Node)
    (h : ∀ p ∈ nodes.keys, p = [] ∨ nodes.get p.tail = some .dir) : FS where
  nodes := nodes
  wf := by
    intro n d hn
    have hmem := Dict.mem_keys_iff.mpr (Option.ne_none_iff_exists'.mp hn)
    exact (h (n :: d) hmem).resolve_left (by simp)

/-- What stands at a path, links not followed (`lstat`). -/
def get (fs : FS) (p : Path) : Option Node := fs.nodes.get p

/-- What stands at a path, links followed (`stat`). -/
def stat (fs : FS) (p : Path) : Option Node :=
  match fs.get p with
  | some (.symlink t) =>
    match fs.get t with
    | some (.symlink _) => none
    | node => node
  | node => node

/-- The names in a directory. -/
def entries (fs : FS) (d : Path) : List Name :=
  fs.nodes.keys.filterMap fun
    | [] => none
    | n :: d' => if d' = d then some n else none

/-- A node is put into a directory, in the place of one that is not a directory. -/
def put (fs : FS) (n : Name) (d : Path) (node : Node) (hd : fs.get d = some .dir)
    (hn : fs.get (n :: d) ≠ some .dir) : FS where
  nodes := fs.nodes.set (n :: d) node
  wf := by
    intro m e h
    rw [Dict.get_set] at h ⊢
    have hm : fs.get e = some .dir := by
      split at h
      · rename_i hme
        obtain ⟨-, rfl⟩ := List.cons.inj hme
        exact hd
      · exact fs.wf m e h
    rw [if_neg]
    · exact hm
    · intro heq
      subst heq
      exact hn hm

/-- A node that is not a directory is removed. -/
def erase (fs : FS) (p : Path) (hp : fs.get p ≠ some .dir) : FS where
  nodes := fs.nodes.erase p
  wf := by
    intro n d h
    rw [Dict.get_erase] at h ⊢
    split at h
    · exact absurd rfl h
    · have hd := fs.wf n d h
      rw [if_neg]
      · exact hd
      · intro heq
        subst heq
        exact hp hd

@[simp] theorem get_put {fs : FS} {n : Name} {d : Path} {node : Node} {hd hn} (p : Path) :
    (fs.put n d node hd hn).get p = if p = n :: d then some node else fs.get p :=
  Dict.get_set fs.nodes (n :: d) p node

@[simp] theorem get_erase {fs : FS} {q : Path} {hq} (p : Path) :
    (fs.erase q hq).get p = if p = q then none else fs.get p :=
  Dict.get_erase fs.nodes q p

/-! Where nothing stands, nothing stands below. -/

theorem get_dir_of_child {fs : FS} {n : Name} {d : Path} (h : fs.get (n :: d) ≠ none) :
    fs.get d = some .dir := fs.wf n d h

theorem get_ne_none_of_suffix {fs : FS} {p q : Path} (h : q <:+ p) (hp : fs.get p ≠ none) :
    fs.get q ≠ none := by
  obtain ⟨l, rfl⟩ := h
  induction l with
  | nil => exact hp
  | cons n l ih =>
    have hd : fs.get (l ++ q) = some .dir := get_dir_of_child hp
    exact ih (by simp [hd])

/-! Listings. -/

theorem mem_entries {fs : FS} {n : Name} {d : Path} :
    n ∈ fs.entries d ↔ fs.get (n :: d) ≠ none := by
  rw [entries, List.mem_filterMap, get, Option.ne_none_iff_exists', ← Dict.mem_keys_iff]
  refine ⟨?_, ?_⟩
  · intro ⟨p, hp, h⟩
    cases p with
    | nil => cases h
    | cons m e =>
      simp only [Option.ite_none_right_eq_some, Option.some.injEq] at h
      obtain ⟨rfl, rfl⟩ := h
      exact hp
  · intro h
    exact ⟨n :: d, h, if_pos rfl⟩

theorem nodup_entries (fs : FS) (d : Path) : (fs.entries d).Nodup := by
  refine List.Nodup.filterMap ?_ fs.nodes.nodup
  intro p q n hp hq
  cases p with
  | nil => cases hp
  | cons m e =>
    cases q with
    | nil => cases hq
    | cons m' e' =>
      simp only [Option.mem_def, Option.ite_none_right_eq_some, Option.some.injEq] at hp hq
      rw [hp.1, hp.2, hq.1, hq.2]

/-! The operations. -/

/-- `mkdir(2)`. -/
def mkdir (fs : FS) : Path → Except Errno FS
  | [] => .error .eexist
  | n :: d =>
    if h : fs.get (n :: d) = none then
      if hd : fs.get d = some .dir then
        .ok (fs.put n d .dir hd (by rw [h]; exact Option.some_ne_none _ |>.symm))
      else if fs.get d = none then .error .enoent
      else .error .enotdir
    else .error .eexist

/-- Where a file opened for writing is: a link is followed. -/
def locate (fs : FS) (p : Path) : Path :=
  match fs.get p with
  | some (.symlink t) => t
  | _ => p

/-- Why a node cannot be opened for writing, if it cannot. -/
def writeErrno : Option Node → Option Errno
  | none | some (.file _) => none
  | some .dir => some .eisdir
  | some (.symlink _) => some .eloop
  | some .special => some .other

/-- A file is opened for writing, created where nothing is, and holds `bytes` at the end. -/
def write (fs : FS) (p : Path) (bytes : Bytes) : Except Errno FS :=
  match fs.locate p with
  | [] => .error .eisdir
  | n :: d =>
    match hn : writeErrno (fs.get (n :: d)) with
    | some e => .error e
    | none =>
      if hd : fs.get d = some .dir then
        .ok (fs.put n d (.file bytes) hd (by intro h; rw [h] at hn; cases hn))
      else if fs.get d = none then .error .enoent
      else .error .enotdir

/-- The bytes of a file opened for reading. -/
def read (fs : FS) (p : Path) : Except Errno Bytes :=
  match fs.stat p with
  | some (.file bytes) => .ok bytes
  | some .dir => .error .eisdir
  | some _ => .error .other
  | none => .error .enoent

/-- `unlink(2)`. -/
def unlink (fs : FS) (p : Path) : Except Errno FS :=
  if hp : fs.get p = some .dir then .error .eisdir
  else if fs.get p = none then .error .enoent
  else .ok (fs.erase p hp)

/-- `rename(2)` of what is not a directory; the destination is replaced. -/
def rename (fs : FS) (p : Path) : Path → Except Errno FS
  | [] => .error .eisdir
  | n :: d =>
    if hp : fs.get p = some .dir ∨ fs.get (n :: d) = some .dir then .error .eisdir
    else match fs.get p with
      | none => .error .enoent
      | some node =>
        if hd : fs.get d = some .dir then
          if hq : p = n :: d then .ok fs
          else .ok ((fs.put n d node hd (fun h => hp (Or.inr h))).erase p (by
            rw [get_put, if_neg hq]
            exact fun h => hp (Or.inl h)))
        else if fs.get d = none then .error .enoent
        else .error .enotdir

/-! What an operation that succeeded did. -/

theorem mkdir_ok {fs fs' : FS} {p : Path} (h : fs.mkdir p = .ok fs') :
    fs.get p = none ∧ ∀ q, fs'.get q = if q = p then some .dir else fs.get q := by
  cases p with
  | nil => cases h
  | cons n d =>
    rw [mkdir] at h
    split at h
    · rename_i hp
      split at h
      · cases h
        exact ⟨hp, fun q => get_put q⟩
      · split at h <;> cases h
    · cases h

theorem locate_of_none {fs : FS} {p : Path} (h : fs.get p = none) : fs.locate p = p := by
  rw [locate, h]

theorem locate_of_file {fs : FS} {p : Path} {b : Bytes} (h : fs.get p = some (.file b)) :
    fs.locate p = p := by
  rw [locate, h]

theorem write_ok {fs fs' : FS} {p : Path} {bytes : Bytes} (h : fs.write p bytes = .ok fs')
    (hp : fs.locate p = p) : ∀ q, fs'.get q = if q = p then some (.file bytes) else fs.get q := by
  rw [write, hp] at h
  cases p with
  | nil => cases h
  | cons n d =>
    dsimp only at h
    split at h
    · cases h
    · split at h
      · cases h
        exact fun q => get_put q
      · split at h <;> cases h

theorem read_ok {fs : FS} {p : Path} {bytes : Bytes} (h : fs.read p = .ok bytes) :
    fs.stat p = some (.file bytes) := by
  rw [read] at h
  split at h
  · rename_i b hb
    cases h
    exact hb
  all_goals cases h

theorem read_eq {fs : FS} {p : Path} {bytes : Bytes} (h : fs.get p = some (.file bytes)) :
    fs.read p = .ok bytes := by
  have hs : fs.stat p = some (.file bytes) := by rw [stat, h]
  rw [read, hs]

theorem unlink_eq {fs : FS} {p : Path} {bytes : Bytes} (h : fs.get p = some (.file bytes)) :
    ∃ fs', fs.unlink p = .ok fs' ∧ ∀ q, fs'.get q = if q = p then none else fs.get q := by
  have hp : fs.get p ≠ some .dir := by rw [h]; simp
  refine ⟨fs.erase p hp, ?_, fun q => get_erase q⟩
  rw [unlink, dif_neg hp, if_neg (by rw [h]; simp)]

theorem rename_ok {fs fs' : FS} {p q : Path} (h : fs.rename p q = .ok fs') (hpq : p ≠ q) :
    ∀ r, fs'.get r = if r = p then none else if r = q then fs.get p else fs.get r := by
  cases q with
  | nil => cases h
  | cons n d =>
    rw [rename] at h
    split at h
    · cases h
    · split at h
      · cases h
      · rename_i node hnode
        split at h
        · cases h
          intro r
          rw [get_erase, get_put, hnode]
        · split at h <;> cases h

end FS
end Posix
