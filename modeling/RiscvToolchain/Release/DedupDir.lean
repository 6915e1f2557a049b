import RiscvToolchain.Posix.Lines
import RiscvToolchain.Posix.FileSystem
import RiscvToolchain.Semantics.Groups

/- `.github/dedup-dir.sh`: files with the same contents become links to one file.

   Correspondence (bash ↔ Lean):
     the regular files of the tree       ↔ `LinkedFiles`: the inode of each path, and the
                                           file of each inode
     `find ${DIR} -type f ! -empty`      ↔ `Found`, `findNonEmpty`
     the words of the backquotes         ↔ `words`, cut at newlines alone
     `sha1sum`                           ↔ `Sha1`, `sha1sumLine`
     `sort`                              ↔ `Posix.sort` in a `HashCollation`
     `uniq -w 40 --all-repeated=separate` ↔ `uniqAllRepeated`
     `readarray -t`                      ↔ the lines of its text
     `LINK_CHECK`                        ↔ `linkCheck`, no line for a path that is not there
     `ln -f`                             ↔ `LinkedFiles.ln`
     `deduplicate_files`                 ↔ `deduplicateFiles`
   A name has no newline, backslash, space or glob character, so that a word, a line of
   `sha1sum` and a line of `ls` are about one path; only the newline shows here. The user
   may read every file and write every directory. Links are made between neighbours of one
   group, so all of a group get the inode of its first path (`ino_foldPairs`), and with it
   the permissions of that inode. -/
namespace Release
open Python Posix Semantics

structure LinkedFile where
  bytes : Bytes
  mode : Nat
  deriving DecidableEq

structure LinkedFiles where
  entry : Str → Option Nat
  file : Nat → LinkedFile

namespace LinkedFiles
variable (t : LinkedFiles) (p : Str)

def lookup : Option LinkedFile := (t.entry p).map t.file

def bytes : Bytes := ((t.lookup p).map LinkedFile.bytes).getD []

def mode : Option Nat := (t.lookup p).map LinkedFile.mode

/-- `ln -f target name`, which needs the target. -/
def ln (target name : Str) : LinkedFiles :=
  match t.entry target with
  | some i => { t with entry := Function.update t.entry name (some i) }
  | none => t

end LinkedFiles

/-- A tree with the order in which `find` comes to its paths. -/
structure Found extends LinkedFiles where
  paths : List Str
  mem_paths : ∀ p, p ∈ paths ↔ (entry p).isSome = true
  ne_nil : ∀ p ∈ paths, p ≠ []
  noNewline : ∀ p ∈ paths, '\n' ∉ p

def isHexDigit (c : Char) : Bool := c.isDigit || ('a' ≤ c && c ≤ 'f')

/-- Forty hexadecimal digits. -/
def IsHash (s : Str) : Prop := s.length = 40 ∧ ∀ c ∈ s, isHexDigit c = true

structure Sha1 where
  digest : Bytes → Str
  isHash : ∀ b, IsHash (digest b)

/-- An order of lines in which those that start with different hashes are ordered by these,
    as in a locale where every digit and letter has a place of its own. -/
structure HashCollation extends Collation where
  hashFirst : ∀ h k, IsHash h → IsHash k → h ≠ k → ∀ s t s' t', le (h ++ s) (k ++ t) = true →
    le (h ++ s') (k ++ t') = true

/-! The program. -/

def findNonEmpty (t : Found) : Str := unlines (t.paths.filter fun p => t.bytes p ≠ [])

/-- The words of a text where the field separator is the newline. -/
def words (text : Str) : List Str := (split '\n' text).filter (· ≠ [])

def sha1sumLine (sha1 : Sha1) (t : LinkedFiles) (p : Str) : Str :=
  sha1.digest (t.bytes p) ++ "  ".toList ++ p

/-- What `-w 40` compares. -/
def lineHash (line : Str) : Str := line.take 40

/-- `${line:42}`. -/
def linePath (line : Str) : Str := line.drop 42

def uniqAllRepeated (text : Str) : Str :=
  unlines (List.intercalate [[]] ((groups lineHash (lines text)).filter (2 ≤ ·.length)))

def duplicates (sha1 : Sha1) (c : HashCollation) (t : Found) : List Str :=
  let sums := unlines ((words (findNonEmpty t)).map (sha1sumLine sha1 t.toLinkedFiles))
  lines (uniqAllRepeated (sort c.toCollation sums))

/-- How many inode numbers `uniq` leaves of what `ls -li` says about two paths. -/
def linkCheck (t : LinkedFiles) (p q : Str) : Nat :=
  (groups id ([t.entry p, t.entry q].filterMap id)).length

/-- The body of the loop. -/
def linkNeighbours (t : LinkedFiles) (previous current : Str) : LinkedFiles :=
  if current = [] then t
  else if previous = [] then t
  else if linkCheck t (linePath current) (linePath previous) ≠ 1 then
    t.ln (linePath previous) (linePath current)
  else t

def deduplicateFiles (sha1 : Sha1) (c : HashCollation) (t : Found) : LinkedFiles :=
  let dups := duplicates sha1 c t
  (List.range' 1 (dups.length - 1)).foldl
    (fun t i => linkNeighbours t (dups.getD (i - 1) []) (dups.getD i [])) t.toLinkedFiles

/-! The loop. -/

section Loop

/-- The line is about a path that is there. -/
def Present (t : LinkedFiles) (line : Str) : Prop :=
  line ≠ [] ∧ (t.entry (linePath line)).isSome = true

/-- Two paths have one inode after the body of the loop, and nothing else has changed. -/
theorem entry_linkNeighbours {t : LinkedFiles} {a b : Str} (ha : Present t a) (hb : Present t b) :
    (linkNeighbours t a b).entry = Function.update t.entry (linePath b) (t.entry (linePath a)) := by
  obtain ⟨i, hi⟩ := Option.isSome_iff_exists.mp ha.2
  obtain ⟨j, hj⟩ := Option.isSome_iff_exists.mp hb.2
  rw [linkNeighbours, if_neg hb.1, if_neg ha.1]
  split
  · rw [LinkedFiles.ln, hi]
  · next hcheck =>
    have hsame : j = i := by
      by_contra hne
      exact hcheck (by simp [linkCheck, groups, hi, hj, hne])
    rw [hi, ← hsame, ← hj, Function.update_eq_self]

theorem file_linkNeighbours (t : LinkedFiles) (a b : Str) :
    (linkNeighbours t a b).file = t.file := by
  rw [linkNeighbours]
  split
  · rfl
  · split
    · rfl
    · split
      · rw [LinkedFiles.ln]
        split <;> rfl
      · rfl

/-- No path comes or goes. -/
theorem isSome_linkNeighbours {t : LinkedFiles} {a b : Str} (ha : Present t a) (hb : Present t b)
    (p : Str) : ((linkNeighbours t a b).entry p).isSome = (t.entry p).isSome := by
  rw [entry_linkNeighbours ha hb]
  by_cases hp : p = linePath b
  · rw [hp, Function.update_self, ha.2, hb.2]
  · rw [Function.update_of_ne hp]

theorem Present.of_isSome {t t' : LinkedFiles}
    (h : ∀ p, (t'.entry p).isSome = (t.entry p).isSome) {a : Str} (ha : Present t a) :
    Present t' a :=
  ⟨ha.1, (h _).trans ha.2⟩

theorem file_foldPairs (l : List Str) (t : LinkedFiles) :
    (foldPairs linkNeighbours t l).file = t.file := by
  induction l generalizing t with
  | nil => rfl
  | cons a l ih =>
    cases l with
    | nil => rfl
    | cons b l => exact (ih (linkNeighbours t a b)).trans (file_linkNeighbours t a b)

theorem isSome_foldPairs {l : List Str} {t : LinkedFiles} (h : ∀ x ∈ l, Present t x) (p : Str) :
    ((foldPairs linkNeighbours t l).entry p).isSome = (t.entry p).isSome := by
  induction l generalizing t with
  | nil => rfl
  | cons a l ih =>
    cases l with
    | nil => rfl
    | cons b l =>
      have hstep := isSome_linkNeighbours (h a (by simp)) (h b (by simp))
      rw [foldPairs, ih fun x hx => (h x (List.mem_cons_of_mem _ hx)).of_isSome hstep]
      exact hstep p

/-- One group: a path outside of it keeps its inode. -/
theorem entry_foldPairs_of_not_mem {l : List Str} {t : LinkedFiles} (h : ∀ x ∈ l, Present t x)
    {p : Str} (hp : p ∉ l.map linePath) : (foldPairs linkNeighbours t l).entry p = t.entry p := by
  induction l generalizing t with
  | nil => rfl
  | cons a l ih =>
    cases l with
    | nil => rfl
    | cons b l =>
      rw [List.map_cons, List.mem_cons, not_or] at hp
      have hpb : p ≠ linePath b := fun heq => hp.2 (by simp [heq])
      have ha := h a (by simp)
      have hb := h b (by simp)
      have htail : ∀ x ∈ b :: l, Present (linkNeighbours t a b) x := fun x hx =>
        (h x (List.mem_cons_of_mem _ hx)).of_isSome (isSome_linkNeighbours ha hb)
      rw [foldPairs, ih htail hp.2, entry_linkNeighbours ha hb, Function.update_of_ne hpb]

/-- Every path of a group has the inode of the first. -/
theorem entry_foldPairs {a : Str} {l : List Str} {t : LinkedFiles}
    (h : ∀ x ∈ a :: l, Present t x) {p : Str} (hp : p ∈ (a :: l).map linePath) :
    (foldPairs linkNeighbours t (a :: l)).entry p = t.entry (linePath a) := by
  induction l generalizing a t with
  | nil =>
    obtain rfl := List.mem_singleton.mp hp
    rfl
  | cons b l ih =>
    have ha := h a (by simp)
    have hb := h b (by simp)
    have htail : ∀ x ∈ b :: l, Present (linkNeighbours t a b) x := fun x hx =>
      (h x (List.mem_cons_of_mem _ hx)).of_isSome (isSome_linkNeighbours ha hb)
    have hentry := entry_linkNeighbours ha hb
    rw [foldPairs]
    by_cases hpl : p ∈ (b :: l).map linePath
    · rw [ih htail hpl, hentry, Function.update_self]
    · -- the first path, which no link is made at
      rw [List.map_cons, List.mem_cons, or_iff_left hpl] at hp
      have hpb : p ≠ linePath b := fun heq => hpl (by simp [heq])
      rw [entry_foldPairs_of_not_mem htail hpl, hentry, Function.update_of_ne hpb, hp]

theorem file_foldGroups (gs : List (List Str)) (t : LinkedFiles) :
    (gs.foldl (foldPairs linkNeighbours) t).file = t.file := by
  induction gs generalizing t with
  | nil => rfl
  | cons g gs ih => exact (ih (foldPairs linkNeighbours t g)).trans (file_foldPairs g t)

/-- A group leaves the lines of those after it about paths that are there. -/
theorem present_foldPairs {g : List Str} {gs : List (List Str)} {t : LinkedFiles}
    (h : ∀ g' ∈ g :: gs, ∀ x ∈ g', Present t x) :
    ∀ g' ∈ gs, ∀ x ∈ g', Present (foldPairs linkNeighbours t g) x := by
  intro g' hg' x hx
  have hone := isSome_foldPairs (h g List.mem_cons_self)
  exact (h g' (List.mem_cons_of_mem _ hg') x hx).of_isSome hone

theorem isSome_foldGroups {gs : List (List Str)} {t : LinkedFiles}
    (h : ∀ g ∈ gs, ∀ x ∈ g, Present t x) (p : Str) :
    ((gs.foldl (foldPairs linkNeighbours) t).entry p).isSome = (t.entry p).isSome := by
  induction gs generalizing t with
  | nil => rfl
  | cons g gs ih =>
    rw [List.foldl_cons, ih (present_foldPairs h), isSome_foldPairs (h g List.mem_cons_self)]

/-- A path of no group keeps its inode. -/
theorem entry_foldGroups_of_not_mem {gs : List (List Str)} {t : LinkedFiles}
    (h : ∀ g ∈ gs, ∀ x ∈ g, Present t x) {p : Str} (hp : ∀ g ∈ gs, p ∉ g.map linePath) :
    (gs.foldl (foldPairs linkNeighbours) t).entry p = t.entry p := by
  induction gs generalizing t with
  | nil => rfl
  | cons g gs ih =>
    rw [List.foldl_cons, ih (present_foldPairs h) (fun g hg => hp g (List.mem_cons_of_mem _ hg)),
      entry_foldPairs_of_not_mem (h _ List.mem_cons_self) (hp _ List.mem_cons_self)]

/-- Groups without a common path: each path has the inode of the first of its group. -/
theorem entry_foldGroups {gs : List (List Str)} {t : LinkedFiles}
    (h : ∀ g ∈ gs, ∀ x ∈ g, Present t x)
    (hdisj : gs.Pairwise fun g g' => ∀ p ∈ g.map linePath, p ∉ g'.map linePath) {a : Str}
    {l : List Str} (hg : a :: l ∈ gs) {p : Str} (hp : p ∈ (a :: l).map linePath) :
    (gs.foldl (foldPairs linkNeighbours) t).entry p = t.entry (linePath a) := by
  induction gs generalizing t with
  | nil => cases hg
  | cons g gs ih =>
    obtain ⟨hfirst, hrest⟩ := List.pairwise_cons.mp hdisj
    rw [List.foldl_cons]
    rcases List.mem_cons.mp hg with rfl | hg
    · rw [entry_foldGroups_of_not_mem (present_foldPairs h) (fun g' hg' => hfirst g' hg' p hp),
        entry_foldPairs (h _ List.mem_cons_self) hp]
    · have ha : linePath a ∉ g.map linePath := by
        intro hmem
        exact hfirst _ hg _ hmem (by simp)
      rw [ih (present_foldPairs h) hrest hg, entry_foldPairs_of_not_mem (h _ List.mem_cons_self) ha]

end Loop

/-! The lines. -/

section Lines
variable (sha1 : Sha1) (c : HashCollation) (t : Found)

def nonEmptyPaths : List Str := t.paths.filter fun p => t.bytes p ≠ []

theorem mem_nonEmptyPaths {p : Str} : p ∈ nonEmptyPaths t ↔ p ∈ t.paths ∧ t.bytes p ≠ [] := by
  simp [nonEmptyPaths]

/-- The sorted lines of `sha1sum`. -/
def sortedSums : List Str :=
  ((nonEmptyPaths t).map (sha1sumLine sha1 t.toLinkedFiles)).mergeSort c.le

theorem words_unlines {ps : List Str} (hne : ∀ p ∈ ps, p ≠ []) (hnl : ∀ p ∈ ps, '\n' ∉ p) :
    words (unlines ps) = ps := by
  induction ps with
  | nil => rfl
  | cons p ps ih =>
    have ih := ih (fun q hq => hne q (List.mem_cons_of_mem _ hq))
      (fun q hq => hnl q (List.mem_cons_of_mem _ hq))
    have hsplit : split '\n' (unlines (p :: ps)) = p :: split '\n' (unlines ps) := by
      rw [unlines, List.flatMap_cons, List.append_assoc, List.singleton_append,
        split_append (hnl p List.mem_cons_self), unlines]
    rw [words, hsplit, List.filter_cons_of_pos (by simp [hne p]), ← words, ih]

theorem not_mem_of_isHash {h : Str} (hh : IsHash h) : '\n' ∉ h := by
  intro hmem
  have := hh.2 _ hmem
  exact absurd this (by decide)

variable {t} in
theorem newline_not_mem_sha1sumLine {p : Str} (hp : p ∈ t.paths) :
    '\n' ∉ sha1sumLine sha1 t.toLinkedFiles p := by
  rw [sha1sumLine, List.mem_append, List.mem_append, not_or, not_or]
  exact ⟨⟨not_mem_of_isHash (sha1.isHash _), by decide⟩, t.noNewline p hp⟩

theorem lineHash_sha1sumLine (p : Str) :
    lineHash (sha1sumLine sha1 t.toLinkedFiles p) = sha1.digest (t.bytes p) := by
  rw [lineHash, sha1sumLine, List.append_assoc, List.take_left' (sha1.isHash _).1]

theorem linePath_sha1sumLine (p : Str) : linePath (sha1sumLine sha1 t.toLinkedFiles p) = p := by
  rw [linePath, sha1sumLine, List.drop_left']
  rw [List.length_append, (sha1.isHash _).1]
  rfl

theorem mem_sortedSums {l : Str} :
    l ∈ sortedSums sha1 c t ↔ ∃ p ∈ nonEmptyPaths t, sha1sumLine sha1 t.toLinkedFiles p = l := by
  rw [sortedSums, List.mem_mergeSort, List.mem_map]

/-- The groups of two lines or more. -/
def repeated : List (List Str) := (groups lineHash (sortedSums sha1 c t)).filter (2 ≤ ·.length)

theorem mem_intercalate {α : Type} {x : α} {gs : List (List α)} {a : α}
    (h : a ∈ List.intercalate [x] gs) : a = x ∨ ∃ g ∈ gs, a ∈ g := by
  induction gs with
  | nil => cases h
  | cons g gs ih =>
    cases gs with
    | nil =>
      rw [List.intercalate_singleton] at h
      exact Or.inr ⟨g, List.mem_cons_self, h⟩
    | cons g' gs =>
      rw [List.intercalate_cons_cons, List.mem_append, List.mem_append] at h
      rcases h with (h | h) | h
      · exact Or.inr ⟨g, List.mem_cons_self, h⟩
      · exact Or.inl (List.mem_singleton.mp h)
      · rcases ih h with h | ⟨g₁, hg₁, h⟩
        · exact Or.inl h
        · exact Or.inr ⟨g₁, List.mem_cons_of_mem _ hg₁, h⟩

variable {sha1 c t} in
theorem mem_sortedSums_of_group {g : List Str} (hg : g ∈ groups lineHash (sortedSums sha1 c t))
    {l : Str} (hl : l ∈ g) : l ∈ sortedSums sha1 c t := by
  rw [← groups_flatten lineHash (sortedSums sha1 c t)]
  exact List.mem_flatten.mpr ⟨g, hg, hl⟩

variable {sha1 c t} in
theorem newline_not_mem_of_mem_sums {l : Str} (hl : l ∈ sortedSums sha1 c t) : '\n' ∉ l := by
  obtain ⟨p, hp, rfl⟩ := (mem_sortedSums sha1 c t).mp hl
  exact newline_not_mem_sha1sumLine sha1 ((mem_nonEmptyPaths t).mp hp).1

theorem duplicates_eq : duplicates sha1 c t = List.intercalate [[]] (repeated sha1 c t) := by
  have hwords : words (findNonEmpty t) = nonEmptyPaths t := by
    apply words_unlines
    · intro p hp
      exact t.ne_nil p ((mem_nonEmptyPaths t).mp hp).1
    · intro p hp
      exact t.noNewline p ((mem_nonEmptyPaths t).mp hp).1
  have hlines : lines (unlines ((nonEmptyPaths t).map (sha1sumLine sha1 t.toLinkedFiles))) =
      (nonEmptyPaths t).map (sha1sumLine sha1 t.toLinkedFiles) := by
    rw [lines_listing, flatMap_split_of_not_mem]
    intro l hl
    obtain ⟨p, hp, rfl⟩ := List.mem_map.mp hl
    exact newline_not_mem_sha1sumLine sha1 ((mem_nonEmptyPaths t).mp hp).1
  rw [duplicates, hwords, uniqAllRepeated, lines_sort, hlines, lines_listing,
    flatMap_split_of_not_mem]
  · rfl
  · intro l hl
    rcases mem_intercalate hl with rfl | ⟨g, hg, hlg⟩
    · exact List.not_mem_nil
    · exact newline_not_mem_of_mem_sums (mem_sortedSums_of_group (List.mem_of_mem_filter hg) hlg)

theorem deduplicateFiles_eq : deduplicateFiles sha1 c t =
    (repeated sha1 c t).foldl (foldPairs linkNeighbours) t.toLinkedFiles := by
  have hl : ∀ (t : LinkedFiles) (a : Str), linkNeighbours t a [] = t := fun t a => rfl
  have hr : ∀ (t : LinkedFiles) (b : Str), linkNeighbours t [] b = t := by
    intro t b
    rw [linkNeighbours, if_pos rfl]
    split <;> rfl
  rw [deduplicateFiles, foldl_index_eq, duplicates_eq, foldPairs_intercalate hl hr]

/-! One group for each hash. -/

theorem sortedSums_pairwise : (sortedSums sha1 c t).Pairwise (c.le · · = true) :=
  List.pairwise_mergeSort c.trans c.total _

theorem sortedSums_contiguous : Contiguous lineHash (sortedSums sha1 c t) := by
  refine contiguous_of_pairwise lineHash (List.Pairwise.and_mem.mp (sortedSums_pairwise sha1 c t)) ?_
  intro a x b ⟨ha, hx, hax⟩ ⟨_, hb, hxb⟩ hkey
  obtain ⟨p, -, rfl⟩ := (mem_sortedSums sha1 c t).mp ha
  obtain ⟨q, -, rfl⟩ := (mem_sortedSums sha1 c t).mp hx
  obtain ⟨r, -, rfl⟩ := (mem_sortedSums sha1 c t).mp hb
  simp only [lineHash_sha1sumLine] at hkey ⊢
  by_contra hne
  -- the later line with the first hash could be exchanged for the first line
  have hback : c.le (sha1sumLine sha1 t.toLinkedFiles q)
      (sha1sumLine sha1 t.toLinkedFiles p) = true := by
    simp only [sha1sumLine, List.append_assoc] at hxb ⊢
    rw [hkey] at hxb
    exact c.hashFirst _ _ (sha1.isHash _) (sha1.isHash _) hne _ _ _ _ hxb
  have heq := c.antisymm _ _ hback hax
  have hhash := congrArg lineHash heq
  rw [lineHash_sha1sumLine, lineHash_sha1sumLine] at hhash
  exact hne hhash

theorem groups_ne {g g' : List Str} (hg : g ∈ groups lineHash (sortedSums sha1 c t))
    (hg' : g' ∈ groups lineHash (sortedSums sha1 c t)) (hne : g ≠ g') :
    ∀ a ∈ g, ∀ b ∈ g', lineHash a ≠ lineHash b := by
  have hsymm : Std.Symm fun g g' : List Str => ∀ a ∈ g, ∀ b ∈ g', lineHash a ≠ lineHash b :=
    ⟨fun g g' h a ha b hb => (h b hb a ha).symm⟩
  exact (sortedSums_contiguous sha1 c t).groups_pairwise.forall hg hg' hne

theorem mem_group {p : Str} (hp : p ∈ nonEmptyPaths t) :
    ∃ g ∈ groups lineHash (sortedSums sha1 c t), sha1sumLine sha1 t.toLinkedFiles p ∈ g := by
  have hmem := (mem_sortedSums sha1 c t).mpr ⟨p, hp, rfl⟩
  rw [← groups_flatten lineHash (sortedSums sha1 c t)] at hmem
  exact List.mem_flatten.mp hmem

variable {sha1 c t} in
/-- A line of a group, by its path. -/
theorem eq_of_linePath {g : List Str} (hg : g ∈ groups lineHash (sortedSums sha1 c t)) {l : Str}
    (hl : l ∈ g) :
    linePath l ∈ nonEmptyPaths t ∧ l = sha1sumLine sha1 t.toLinkedFiles (linePath l) := by
  obtain ⟨p, hp, rfl⟩ := (mem_sortedSums sha1 c t).mp (mem_sortedSums_of_group hg hl)
  rw [linePath_sha1sumLine]
  exact ⟨hp, rfl⟩

variable {sha1 c t} in
theorem present_of_group {g : List Str} (hg : g ∈ groups lineHash (sortedSums sha1 c t)) {l : Str}
    (hl : l ∈ g) : Present t.toLinkedFiles l := by
  obtain ⟨hp, heq⟩ := eq_of_linePath hg hl
  refine ⟨?_, (t.mem_paths _).mp ((mem_nonEmptyPaths t).mp hp).1⟩
  rw [heq, sha1sumLine]
  simp

theorem present_repeated : ∀ g ∈ repeated sha1 c t, ∀ l ∈ g, Present t.toLinkedFiles l :=
  fun _ hg _ hl => present_of_group (List.mem_of_mem_filter hg) hl

/-- Groups of different hashes have no path in common. -/
theorem repeated_disjoint :
    (repeated sha1 c t).Pairwise fun g g' => ∀ p ∈ g.map linePath, p ∉ g'.map linePath := by
  have hpair := (sortedSums_contiguous sha1 c t).groups_pairwise.filter (2 ≤ ·.length)
  refine hpair.imp_of_mem ?_
  intro g g' hg hg' hne p hp hp'
  obtain ⟨a, ha, rfl⟩ := List.mem_map.mp hp
  obtain ⟨b, hb, hab⟩ := List.mem_map.mp hp'
  have haeq := (eq_of_linePath (List.mem_of_mem_filter hg) ha).2
  have hbeq := (eq_of_linePath (List.mem_of_mem_filter hg') hb).2
  rw [hab, ← haeq] at hbeq
  exact hne a ha b hb (by rw [hbeq])

end Lines

/-! What is left. -/

section Deduplicated
variable (sha1 : Sha1) (c : HashCollation) (t : Found)

/-- The first path in the sorted list that has the hash of `p`. -/
structure IsFirst (p q : Str) : Prop where
  mem : q ∈ nonEmptyPaths t
  same : sha1.digest (t.bytes q) = sha1.digest (t.bytes p)
  first : ∀ r ∈ nonEmptyPaths t, sha1.digest (t.bytes r) = sha1.digest (t.bytes p) →
    c.le (sha1sumLine sha1 t.toLinkedFiles q) (sha1sumLine sha1 t.toLinkedFiles r) = true

variable {sha1 c t}

theorem IsFirst.congr {p p' q q' : Str} (hq : IsFirst sha1 c t p q) (hq' : IsFirst sha1 c t p' q')
    (h : sha1.digest (t.bytes p) = sha1.digest (t.bytes p')) : q = q' := by
  have hle := hq.first q' hq'.mem (hq'.same.trans h.symm)
  have hle' := hq'.first q hq.mem (hq.same.trans h)
  have heq := congrArg linePath (c.antisymm _ _ hle hle')
  rwa [linePath_sha1sumLine, linePath_sha1sumLine] at heq

variable (sha1 c t)

/-- The head of a group is the first with its hash. -/
theorem isFirst_head {p a : Str} {l : List Str}
    (hg : a :: l ∈ groups lineHash (sortedSums sha1 c t))
    (hp : sha1sumLine sha1 t.toLinkedFiles p ∈ a :: l) : IsFirst sha1 c t p (linePath a) := by
  obtain ⟨hmem, haeq⟩ := eq_of_linePath hg List.mem_cons_self
  have hkey : ∀ b, lineHash b = sha1.digest (t.bytes p) → lineHash a = lineHash b := by
    intro b hb
    rw [hb, ← lineHash_sha1sumLine]
    exact key_eq_of_mem_groups lineHash hg _ List.mem_cons_self _ hp
  refine ⟨hmem, ?_, ?_⟩
  · rw [← lineHash_sha1sumLine sha1 t (linePath a), ← haeq]
    exact (hkey _ (lineHash_sha1sumLine sha1 t p)).trans (lineHash_sha1sumLine sha1 t p)
  · intro r hr hsame
    rw [← haeq]
    obtain ⟨g, hg', hrg⟩ := mem_group sha1 c t hr
    have hkeys := hkey (sha1sumLine sha1 t.toLinkedFiles r) (by rw [lineHash_sha1sumLine, hsame])
    by_cases hne : a :: l = g
    · rw [← hne] at hrg
      have hsub : (a :: l).Sublist (sortedSums sha1 c t) := by
        have hflat := List.sublist_flatten_of_mem hg
        rwa [groups_flatten] at hflat
      -- a group is a part of the sorted list
      have hsorted := List.pairwise_cons.mp ((sortedSums_pairwise sha1 c t).sublist hsub)
      rcases List.mem_cons.mp hrg with heq | hrl
      · rw [heq]
        simpa using c.total a a
      · exact hsorted.1 _ hrl
    · exact absurd hkeys (groups_ne sha1 c t hg hg' hne a List.mem_cons_self _ hrg)

/-- A path whose line is in no group of two or more keeps its inode. -/
theorem entry_of_not_repeated {p : Str}
    (h : ∀ g ∈ repeated sha1 c t, sha1sumLine sha1 t.toLinkedFiles p ∉ g) :
    (deduplicateFiles sha1 c t).entry p = t.entry p := by
  rw [deduplicateFiles_eq]
  refine entry_foldGroups_of_not_mem (present_repeated sha1 c t) ?_
  intro g hg hp
  obtain ⟨l, hl, rfl⟩ := List.mem_map.mp hp
  refine h g hg ?_
  rwa [← (eq_of_linePath (List.mem_of_mem_filter hg) hl).2]

/-- Every path with contents gets the inode of the first with its hash. -/
theorem entry_deduplicateFiles {p : Str} (hp : p ∈ nonEmptyPaths t) :
    ∃ q, IsFirst sha1 c t p q ∧ (deduplicateFiles sha1 c t).entry p = t.entry q := by
  obtain ⟨g, hg, hpg⟩ := mem_group sha1 c t hp
  obtain ⟨a, l, rfl⟩ := List.exists_cons_of_ne_nil (ne_nil_of_mem_groups lineHash hg)
  refine ⟨linePath a, isFirst_head sha1 c t hg hpg, ?_⟩
  by_cases hlen : 2 ≤ (a :: l).length
  · -- the loop comes to its group
    have hmem : a :: l ∈ repeated sha1 c t :=
      List.mem_filter.mpr ⟨hg, decide_eq_true hlen⟩
    rw [deduplicateFiles_eq]
    refine entry_foldGroups (present_repeated sha1 c t) (repeated_disjoint sha1 c t) hmem ?_
    exact List.mem_map.mpr ⟨_, hpg, linePath_sha1sumLine sha1 t p⟩
  · -- the only line of its group
    have hnil : l = [] := by
      rw [List.length_cons] at hlen
      exact List.length_eq_zero_iff.mp (by omega)
    subst hnil
    rw [← List.mem_singleton.mp hpg, linePath_sha1sumLine]
    refine entry_of_not_repeated sha1 c t ?_
    intro g hg' hpg'
    obtain ⟨hg', hlen'⟩ := List.mem_filter.mp hg'
    by_cases hne : [a] = g
    · rw [← hne] at hlen'
      exact absurd hlen' (by simp)
    · exact groups_ne sha1 c t hg hg' hne _ hpg _ hpg' rfl

theorem entry_of_bytes_nil {p : Str} (hp : t.bytes p = []) :
    (deduplicateFiles sha1 c t).entry p = t.entry p := by
  refine entry_of_not_repeated sha1 c t ?_
  intro g hg hpg
  obtain ⟨hmem, -⟩ := eq_of_linePath (List.mem_of_mem_filter hg) hpg
  rw [linePath_sha1sumLine] at hmem
  exact ((mem_nonEmptyPaths t).mp hmem).2 hp

theorem file_deduplicateFiles : (deduplicateFiles sha1 c t).file = t.file := by
  rw [deduplicateFiles_eq, file_foldGroups]

theorem isSome_deduplicateFiles (p : Str) :
    ((deduplicateFiles sha1 c t).entry p).isSome = (t.entry p).isSome := by
  rw [deduplicateFiles_eq, isSome_foldGroups (present_repeated sha1 c t)]

theorem lookup_of_entry {p q : Str} (h : (deduplicateFiles sha1 c t).entry p = t.entry q) :
    (deduplicateFiles sha1 c t).lookup p = t.lookup q := by
  rw [LinkedFiles.lookup, LinkedFiles.lookup, h, file_deduplicateFiles]

end Deduplicated

/-! The script. -/

def NoCollision (sha1 : Sha1) (t : Found) : Prop :=
  ∀ p ∈ t.paths, ∀ q ∈ t.paths, sha1.digest (t.bytes p) = sha1.digest (t.bytes q) →
    t.bytes p = t.bytes q

/-- Every path has its bytes, and the inodes are those of the contents. -/
structure KeepsContents (t : Found) (t' : LinkedFiles) : Prop where
  paths : ∀ p, (t'.entry p).isSome = (t.entry p).isSome
  bytes : ∀ p, t'.bytes p = t.bytes p
  inode : ∀ p ∈ nonEmptyPaths t, ∀ q ∈ nonEmptyPaths t,
    (t'.entry p = t'.entry q ↔ t.bytes p = t.bytes q)

/-- The permissions after it: those of the first path with the same bytes. -/
structure ModesOfFirst (sha1 : Sha1) (c : HashCollation) (t : Found) (t' : LinkedFiles) :
    Prop where
  nonEmpty : ∀ p ∈ nonEmptyPaths t, ∃ q, IsFirst sha1 c t p q ∧ t.bytes q = t.bytes p ∧
    t'.mode p = t.mode q
  empty : ∀ p, t.bytes p = [] → t'.mode p = t.mode p

theorem mem_paths_of_bytes {t : Found} {p : Str} (h : t.bytes p ≠ []) : p ∈ t.paths := by
  rw [t.mem_paths]
  by_contra hnone
  rw [Option.not_isSome_iff_eq_none] at hnone
  exact h (by rw [LinkedFiles.bytes, LinkedFiles.lookup, hnone]; rfl)

theorem bytes_of_isFirst {sha1 : Sha1} {c : HashCollation} {t : Found} (h : NoCollision sha1 t)
    {p q : Str} (hp : p ∈ nonEmptyPaths t) (hq : IsFirst sha1 c t p q) : t.bytes q = t.bytes p :=
  h q ((mem_nonEmptyPaths t).mp hq.mem).1 p ((mem_nonEmptyPaths t).mp hp).1 hq.same

theorem keepsContents (sha1 : Sha1) (c : HashCollation) (t : Found) (h : NoCollision sha1 t) :
    KeepsContents t (deduplicateFiles sha1 c t) := by
  have hbytes : ∀ p, (deduplicateFiles sha1 c t).bytes p = t.bytes p := by
    intro p
    by_cases hp : t.bytes p = []
    · rw [LinkedFiles.bytes, lookup_of_entry sha1 c t (entry_of_bytes_nil sha1 c t hp),
        ← LinkedFiles.bytes]
    · have hmem := (mem_nonEmptyPaths t).mpr ⟨mem_paths_of_bytes hp, hp⟩
      obtain ⟨q, hq, hentry⟩ := entry_deduplicateFiles sha1 c t hmem
      rw [LinkedFiles.bytes, lookup_of_entry sha1 c t hentry, ← LinkedFiles.bytes,
        bytes_of_isFirst h hmem hq]
  refine ⟨isSome_deduplicateFiles sha1 c t, hbytes, ?_⟩
  intro p hp q hq
  constructor
  · intro hentry
    rw [← hbytes p, ← hbytes q, LinkedFiles.bytes, LinkedFiles.bytes, LinkedFiles.lookup,
      LinkedFiles.lookup, hentry]
  · intro heq
    obtain ⟨p', hp', hpentry⟩ := entry_deduplicateFiles sha1 c t hp
    obtain ⟨q', hq', hqentry⟩ := entry_deduplicateFiles sha1 c t hq
    rw [hpentry, hqentry, hp'.congr hq' (congrArg sha1.digest heq)]

theorem modesOfFirst (sha1 : Sha1) (c : HashCollation) (t : Found) (h : NoCollision sha1 t) :
    ModesOfFirst sha1 c t (deduplicateFiles sha1 c t) := by
  constructor
  · intro p hp
    obtain ⟨q, hq, hentry⟩ := entry_deduplicateFiles sha1 c t hp
    refine ⟨q, hq, bytes_of_isFirst h hp hq, ?_⟩
    rw [LinkedFiles.mode, lookup_of_entry sha1 c t hentry, LinkedFiles.mode]
  · intro p hp
    rw [LinkedFiles.mode, lookup_of_entry sha1 c t (entry_of_bytes_nil sha1 c t hp),
      LinkedFiles.mode]

/-- The SHA-1 digest of `x`; the files here hold nothing else. -/
def digestOfX : Str := "11f6ad8ec52a2984abaafd7c3b516503785c2072".toList

theorem isHash_digestOfX : IsHash digestOfX := by
  constructor
  · rfl
  · exact List.all_eq_true.mp rfl

def sha1OfX : Sha1 := ⟨fun _ => digestOfX, fun _ => isHash_digestOfX⟩

theorem strLe_hashFirst (h k : Str) (hh : IsHash h) (hk : IsHash k) (hne : h ≠ k)
    (s t s' t' : Str) (hle : strLe (h ++ s) (k ++ t) = true) :
    strLe (h ++ s') (k ++ t') = true := by
  have hlen := hh.1.trans hk.1.symm
  rw [strLe_append hlen hne] at hle ⊢
  exact hle

/-- The C locale. -/
def codeOrder : HashCollation :=
  ⟨⟨strLe, strLe_trans, strLe_total, strLe_antisymm⟩, strLe_hashFirst⟩

def readMe : Str := "d/a".toList

def runMe : Str := "d/b".toList

def twoFiles : LinkedFiles where
  entry p := if p = readMe then some 1 else if p = runMe then some 2 else none
  file i := ⟨[120], if i = 1 then 0o644 else 0o755⟩

theorem mem_twoFiles (p : Str) : p ∈ [readMe, runMe] ↔ (twoFiles.entry p).isSome = true := by
  rw [List.mem_cons, List.mem_singleton, twoFiles]
  by_cases hr : p = readMe
  · simp [hr]
  · by_cases hx : p = runMe
    · simp [hx, show runMe ≠ readMe by decide]
    · simp [hr, hx]

theorem twoFiles_names : ∀ p ∈ [readMe, runMe], p ≠ [] ∧ '\n' ∉ p := by decide

/-- Two files with the same byte, one of them to be executed. -/
def foundTwo : Found :=
  ⟨twoFiles, [readMe, runMe], mem_twoFiles, fun p hp => (twoFiles_names p hp).1,
    fun p hp => (twoFiles_names p hp).2⟩

theorem bytes_foundTwo : ∀ p ∈ foundTwo.paths, foundTwo.bytes p = [120] := by decide

theorem noCollision_foundTwo : NoCollision sha1OfX foundTwo := by
  intro p hp q hq _
  rw [bytes_foundTwo p hp, bytes_foundTwo q hq]

end Release
