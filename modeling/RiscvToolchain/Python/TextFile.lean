import RiscvToolchain.Python.Str

/- Text files as Python reads and names them: `readlines` of a file opened in text
   mode (universal newlines), and the two functions of `os.path` that build and
   take apart names. The text of a file is its decoded content. -/
namespace Python

/-- What is found at a path: a file whose text can be read, or something that exists and
    cannot be read as text (a directory, no permission, undecodable bytes). -/
inductive Node where
  | text (s : Str)
  | unreadable
  deriving DecidableEq, Repr

/-- The files a run sees; `none` is a path at which nothing exists. -/
abbrev FS := Str → Option Node

/-- The file system that holds the listed files. -/
def FS.ofList (files : List (Str × Str)) : FS := fun path => (files.lookup path).map .text

/-- The newlines of a file opened in text mode. -/
def universalNewlines : Str → Str
  | [] => []
  | '\r' :: '\n' :: s => '\n' :: universalNewlines s
  | c :: s => (if c = '\r' then '\n' else c) :: universalNewlines s

/-- The lines of a text, each with its newline. -/
def splitLines : Str → List Str
  | [] => []
  | c :: s =>
    if c = '\n' then [c] :: splitLines s
    else match splitLines s with
      | [] => [[c]]
      | l :: ls => (c :: l) :: ls

/-- `open(path).readlines()`; `none` is the exception. -/
def readlines (fs : FS) (path : Str) : Option (List Str) :=
  match fs path with
  | some (.text s) => some (splitLines (universalNewlines s))
  | _ => none

/-- `os.path.exists(path)`. -/
def pathExists (fs : FS) (path : Str) : Bool := (fs path).isSome

/-- `os.path.basename(path)`. -/
def basename (path : Str) : Str := (split '/' path).getLastD []

/-- `os.path.join(dir, name)`. -/
def pathJoin (dir name : Str) : Str :=
  if name.head? = some '/' then name
  else if dir = [] ∨ dir.getLast? = some '/' then dir ++ name
  else dir ++ '/' :: name

/-! Lines written with their newline are read back. -/

theorem universalNewlines_eq_self {s : Str} (h : '\r' ∉ s) : universalNewlines s = s := by
  fun_induction universalNewlines s with
  | case1 => rfl
  | case2 s ih => simp at h
  | case3 c s _ ih =>
    simp only [List.mem_cons, not_or] at h
    rw [ih h.2, if_neg (Ne.symm h.1)]

theorem not_mem_universalNewlines (s : Str) : '\r' ∉ universalNewlines s := by
  fun_induction universalNewlines s with
  | case1 => simp
  | case2 s ih => simpa using ih
  | case3 c s _ ih =>
    rw [List.mem_cons, not_or]
    refine ⟨?_, ih⟩
    split
    · decide
    · rename_i hc
      exact Ne.symm hc

theorem splitLines_append {l s : Str} (h : '\n' ∉ l) :
    splitLines (l ++ '\n' :: s) = (l ++ ['\n']) :: splitLines s := by
  induction l with
  | nil => simp [splitLines]
  | cons c l ih =>
    simp only [List.mem_cons, not_or] at h
    rw [List.cons_append, splitLines, if_neg (Ne.symm h.1), ih h.2]
    rfl

theorem splitLines_flatMap {ls : List Str} (h : ∀ l ∈ ls, '\n' ∉ l) :
    splitLines (ls.flatMap (· ++ ['\n'])) = ls.map (· ++ ['\n']) := by
  induction ls with
  | nil => rfl
  | cons l ls ih =>
    rw [List.flatMap_cons, List.append_assoc, List.singleton_append,
      splitLines_append (h l (by simp)), ih (fun x hx => h x (by simp [hx])), List.map_cons]

/-- A line is a piece of the text, and has its newline at the end only. -/
theorem mem_splitLines {s l : Str} (h : l ∈ splitLines s) :
    ∃ b, '\n' ∉ b ∧ (l = b ∨ l = b ++ ['\n']) ∧ ∀ c ∈ b, c ∈ s := by
  induction s generalizing l with
  | nil => simp [splitLines] at h
  | cons c s ih =>
    rw [splitLines] at h
    split at h
    · -- a newline is a line of its own
      rename_i hc
      rcases List.mem_cons.mp h with hl | h
      · exact ⟨[], by simp, Or.inr (by rw [hl, hc]; rfl), by simp⟩
      · obtain ⟨b, h₁, h₂, h₃⟩ := ih h
        exact ⟨b, h₁, h₂, fun x hx => List.mem_cons_of_mem _ (h₃ x hx)⟩
    · rename_i hc
      have hcons : ∀ b : Str, '\n' ∉ b → '\n' ∉ c :: b := by
        intro b hb
        rw [List.mem_cons, not_or]
        exact ⟨Ne.symm hc, hb⟩
      split at h
      · obtain rfl := List.mem_singleton.mp h
        exact ⟨[c], hcons [] (by simp), Or.inl rfl, by simp⟩
      · rename_i l' ls hs
        rcases List.mem_cons.mp h with rfl | h
        · obtain ⟨b, h₁, h₂, h₃⟩ := ih (l := l') (by rw [hs]; simp)
          refine ⟨c :: b, hcons b h₁, ?_, ?_⟩
          · rcases h₂ with rfl | rfl
            · exact Or.inl rfl
            · exact Or.inr rfl
          · intro x hx
            rcases List.mem_cons.mp hx with rfl | hx
            · simp
            · exact List.mem_cons_of_mem _ (h₃ x hx)
        · obtain ⟨b, h₁, h₂, h₃⟩ := ih (l := l) (by rw [hs]; simp [h])
          exact ⟨b, h₁, h₂, fun x hx => List.mem_cons_of_mem _ (h₃ x hx)⟩

end Python
