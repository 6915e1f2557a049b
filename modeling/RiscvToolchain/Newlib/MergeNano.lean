import RiscvToolchain.Python.Str
import RiscvToolchain.Posix.FileSystem
import RiscvToolchain.Semantics.Guarded

/- The recipe of `stamps/merge-newlib-nano`: newlib-nano's libraries, copied beside newlib's under
   other names, over runs that may fail or be killed at any command.

   Correspondence (Makefile.in ↔ Lean):
     `--print-multi-lib` in back quotes     ↔ `MergeRun.printed`, `words`
     `sed -e 's/;.*$$//'`, and the path     ↔ `dir`
     the five `cp` of one multilib          ↔ `copies`, `copyLibraries`
     the loop                               ↔ `copyMultilibs`
     the last line                          ↔ `copyHeader`
   The first line exports a variable of its own shell, which the second does not see: there
   `${NEWLIB_CC_FOR_MULTILIB_INFO}` is that of `make`. The status of the compiler is not looked
   at, since it stands in the words of a `for`; nor are those of the commands of the last line
   before its last. The words of a multilib have no pattern characters and no `..`, and no
   directory is a link. -/
namespace Newlib
open Python Posix Shell Semantics

/-- A directory below `lib`, with no `.` on its path. -/
abbrev Dir := List Str

/-- The words of what the compiler prints. -/
def words (s : Str) : List Str :=
  (s.splitOnP fun c => c == ' ' || c == '\t' || c == '\n').filter (· ≠ [])

/-- `lib/$mld` -/
def dir (ml : Str) : Dir :=
  (split '/' (ml.takeWhile (· ≠ ';'))).filter fun w => w ≠ [] ∧ w ≠ ['.']

abbrev Lib : Type := Dir → Str → Option Bytes

/-- The tree newlib-nano was installed in, and the directories of the other. -/
structure Trees where
  nano : Lib
  nanoHeader : Option Bytes
  dirs : Dir → Bool

/-- What the recipe changes. -/
structure Installed where
  lib : Lib
  /-- `include/newlib-nano`, and the header in it. -/
  headerDir : Bool
  header : Option Bytes
  stamp : Bool

/-- What becomes of the commands of a run; the copies are counted by the word they are for. -/
structure MergeRun where
  printed : Str
  copy : Nat → Str → Event
  copyLeft : Nat → Str → Option Bytes
  mkdirHeader : Event
  copyHeader : Event
  headerLeft : Option Bytes
  touch : Event

/-- `libc.a` becomes `libc_nano.a`, and so on. -/
def copies : List (Str × Str) :=
  [("libc.a".toList, "libc_nano.a".toList), ("libm.a".toList, "libm_nano.a".toList),
    ("libg.a".toList, "libg_nano.a".toList), ("libgloss.a".toList, "libgloss_nano.a".toList),
    ("crt0.o".toList, "crt0.o".toList)]

def Lib.put (lib : Lib) (d : Dir) (name : Str) (content : Option Bytes) : Lib := fun e n =>
  if e = d ∧ n = name then content else lib e n

section Recipe
variable (trees : Trees) (r : MergeRun)

def copyLibrary (i : Nat) (d : Dir) (source dest : Str) : Script Installed Unit :=
  if (trees.nano d source).isSome ∧ trees.dirs d then
    command (r.copy i source)
      (fun s => some { s with lib := s.lib.put d dest (trees.nano d source) })
      (fun s => { s with lib := s.lib.put d dest (r.copyLeft i source) })
  else command (r.copy i source) (fun _ => none) id

def copyLibraries (i : Nat) (d : Dir) : List (Str × Str) → Script Installed Unit
  | [] => pure ()
  | (source, dest) :: rest => do
    copyLibrary trees r i d source dest
    copyLibraries i d rest

def copyMultilibs (i : Nat) : List Str → Script Installed Unit
  | [] => pure ()
  | ml :: rest => do
    copyLibraries trees r i (dir ml) copies
    copyMultilibs (i + 1) rest

/-- Not under `set -e`. -/
def copyHeader : Script Installed Unit := do
  let _ ← succeeds (command r.mkdirHeader (fun s => some { s with headerDir := true }) id)
  let s ← look
  let _ ← succeeds (
    if trees.nanoHeader.isSome ∧ s.headerDir then
      command r.copyHeader (fun s => some { s with header := trees.nanoHeader })
        (fun s => { s with header := r.headerLeft })
    else command r.copyHeader (fun _ => none) id)
  command r.touch (fun s => some { s with stamp := true }) id

def mergeNewlibNano : Script Installed Unit := do
  copyMultilibs trees r 0 (words r.printed)
  copyHeader trees r

end Recipe

/-- The file that is copied to a name. -/
def sourceOf (name : Str) : Option Str := (copies.find? (·.2 = name)).map (·.1)

/-- The libraries with those of newlib-nano in these directories. -/
def merged (trees : Trees) (ds : List Dir) (lib : Lib) : Lib := fun d name =>
  if d ∈ ds then
    match sourceOf name with
    | some source => trees.nano d source
    | none => lib d name
  else lib d name

/-- The directories of the multilibs that a run is told of. -/
def MergeRun.multilibs (r : MergeRun) : List Dir := (words r.printed).map dir

/-- The copy completes, of a file that is there to a directory that is. -/
def Goes (trees : Trees) (r : MergeRun) (i : Nat) (d : Dir) (source : Str) : Prop :=
  r.copy i source = .completes ∧ (trees.nano d source).isSome ∧ trees.dirs d

def AllGo (trees : Trees) (r : MergeRun) (i : Nat) (ws : List Str) : Prop :=
  ∀ k ml, ws[k]? = some ml → ∀ p ∈ copies, Goes trees r (i + k) (dir ml) p.1

/-- All that a run needs to return. -/
def Finishes (trees : Trees) (r : MergeRun) : Prop :=
  AllGo trees r 0 (words r.printed) ∧ r.mkdirHeader ≠ .killed ∧ r.copyHeader ≠ .killed ∧
    r.touch = .completes

/-! When the copies return. -/

section Returns
variable {trees : Trees} {r : MergeRun} {i : Nat} {d : Dir} {s t : Installed}

theorem copyLibrary_eq_ok {source dest : Str} :
    copyLibrary trees r i d source dest s = (.ok (), t) ↔
      Goes trees r i d source ∧ t = { s with lib := s.lib.put d dest (trees.nano d source) } := by
  unfold copyLibrary
  split
  next hthere =>
    rw [command_eq_ok, Option.some_inj]
    constructor
    · rintro ⟨hcopy, rfl⟩
      exact ⟨⟨hcopy, hthere⟩, rfl⟩
    · rintro ⟨⟨hcopy, -⟩, rfl⟩
      exact ⟨hcopy, rfl⟩
  next hthere =>
    rw [command_eq_ok]
    constructor
    · rintro ⟨-, hnone⟩
      cases hnone
    · rintro ⟨⟨-, hthere'⟩, -⟩
      exact absurd hthere' hthere

/-- The files of one directory, one after the other. -/
def putAll (trees : Trees) (d : Dir) : List (Str × Str) → Lib → Lib
  | [], lib => lib
  | (source, dest) :: rest, lib => putAll trees d rest (lib.put d dest (trees.nano d source))

theorem copyLibraries_eq_ok {l : List (Str × Str)} :
    copyLibraries trees r i d l s = (.ok (), t) ↔
      (∀ p ∈ l, Goes trees r i d p.1) ∧ t = { s with lib := putAll trees d l s.lib } := by
  induction l generalizing s with
  | nil =>
    constructor
    · rintro h
      cases h
      exact ⟨by simp, rfl⟩
    · rintro ⟨-, rfl⟩
      rfl
  | cons p l ih =>
    obtain ⟨source, dest⟩ := p
    rw [copyLibraries, bind_eq_ok, List.forall_mem_cons]
    constructor
    · rintro ⟨_, u, hcopy, hrest⟩
      obtain ⟨hsource, rfl⟩ := copyLibrary_eq_ok.mp hcopy
      obtain ⟨hall, rfl⟩ := ih.mp hrest
      exact ⟨⟨hsource, hall⟩, rfl⟩
    · rintro ⟨⟨hsource, hall⟩, rfl⟩
      exact ⟨(), _, copyLibrary_eq_ok.mpr ⟨hsource, rfl⟩, ih.mpr ⟨hall, rfl⟩⟩

theorem putAll_of_ne {e : Dir} (he : e ≠ d) (l : List (Str × Str)) (lib : Lib) (name : Str) :
    putAll trees d l lib e name = lib e name := by
  induction l generalizing lib with
  | nil => rfl
  | cons p l ih => simp [putAll, ih, Lib.put, he]

/-- No name is written twice, so the order is nothing. -/
theorem putAll_self {l : List (Str × Str)} (hl : (l.map (·.2)).Nodup) (lib : Lib) (name : Str) :
    putAll trees d l lib d name =
      match (l.find? (·.2 = name)).map (·.1) with
      | some source => trees.nano d source
      | none => lib d name := by
  induction l generalizing lib with
  | nil => rfl
  | cons p l ih =>
    obtain ⟨source, dest⟩ := p
    rw [List.map_cons, List.nodup_cons] at hl
    rw [putAll, ih hl.2]
    by_cases hname : dest = name
    · have hnone : l.find? (·.2 = name) = none := by
        rw [List.find?_eq_none]
        intro q hq hqname
        apply hl.1
        rw [show (source, dest).2 = q.2 from hname.trans (of_decide_eq_true hqname).symm]
        exact List.mem_map_of_mem hq
      simp [hnone, hname, Lib.put]
    · have hput : lib.put d dest (trees.nano d source) d name = lib d name := by
        simp [Lib.put, Ne.symm hname]
      simp [hname, hput]

theorem putAll_copies (trees : Trees) (d : Dir) (lib : Lib) :
    putAll trees d copies lib = merged trees [d] lib := by
  funext e name
  by_cases he : e = d
  · subst he
    rw [putAll_self (by decide)]
    simp [merged, sourceOf]
  · rw [putAll_of_ne he]
    simp [merged, he]

theorem merged_cons (trees : Trees) (d : Dir) (ds : List Dir) (lib : Lib) :
    merged trees ds (merged trees [d] lib) = merged trees (d :: ds) lib := by
  funext e name
  by_cases he : e ∈ ds
  · cases hsource : sourceOf name with
    | some source => simp [merged, he, hsource]
    | none => simp [merged, hsource]
  · simp [merged, he]

theorem allGo_cons {ml : Str} {ws : List Str} :
    AllGo trees r i (ml :: ws) ↔
      (∀ p ∈ copies, Goes trees r i (dir ml) p.1) ∧ AllGo trees r (i + 1) ws := by
  constructor
  · intro h
    refine ⟨h 0 ml rfl, fun k ml' hk => ?_⟩
    have hgo := h (k + 1) ml' (by simpa using hk)
    rwa [← Nat.add_assoc, Nat.add_right_comm] at hgo
  · rintro ⟨hml, hws⟩ k ml' hk
    cases k with
    | zero =>
      obtain rfl : ml = ml' := by simpa using hk
      exact hml
    | succ k =>
      have hgo := hws k ml' (by simpa using hk)
      rwa [Nat.add_right_comm, Nat.add_assoc] at hgo

theorem copyMultilibs_eq_ok {ws : List Str} :
    copyMultilibs trees r i ws s = (.ok (), t) ↔
      AllGo trees r i ws ∧ t = { s with lib := merged trees (ws.map dir) s.lib } := by
  induction ws generalizing i s with
  | nil =>
    constructor
    · rintro h
      cases h
      exact ⟨by simp [AllGo], rfl⟩
    · rintro ⟨-, rfl⟩
      rfl
  | cons ml ws ih =>
    rw [copyMultilibs, bind_eq_ok, allGo_cons, List.map_cons, ← merged_cons, ← putAll_copies]
    constructor
    · rintro ⟨_, u, hcopies, hrest⟩
      obtain ⟨hml, rfl⟩ := copyLibraries_eq_ok.mp hcopies
      obtain ⟨hws, rfl⟩ := ih.mp hrest
      exact ⟨⟨hml, hws⟩, rfl⟩
    · rintro ⟨⟨hml, hws⟩, rfl⟩
      exact ⟨(), _, copyLibraries_eq_ok.mpr ⟨hml, rfl⟩, ih.mpr ⟨hws, rfl⟩⟩

end Returns

/-! What a run does, however it ends. -/

section Keeps
variable {trees : Trees} {r : MergeRun} {i : Nat} {d : Dir} {s t : Installed}

/-- Nothing but copies in these directories has been written, and the stamp is as it was. -/
def Apart (ds : List Dir) (s t : Installed) : Prop :=
  (∀ d name, d ∉ ds ∨ sourceOf name = none → t.lib d name = s.lib d name) ∧ t.stamp = s.stamp

theorem Apart.refl (ds : List Dir) (s : Installed) : Apart ds s s := ⟨fun _ _ _ => rfl, rfl⟩

theorem Apart.put {ds : List Dir} {dest : Str} (h : Apart ds s t) (hd : d ∈ ds)
    (hdest : sourceOf dest ≠ none) (content : Option Bytes) :
    Apart ds s { t with lib := t.lib.put d dest content } := by
  refine ⟨fun e name hother => ?_, h.2⟩
  have hne : ¬ (e = d ∧ name = dest) := by
    rintro ⟨rfl, rfl⟩
    rcases hother with hnd | hnone
    · exact hnd hd
    · exact hdest hnone
  simp [Lib.put, hne, h.1 e name hother]

theorem copyLibrary_apart {ds : List Dir} {source dest : Str} (hd : d ∈ ds)
    (hdest : sourceOf dest ≠ none) :
    Triple (Apart ds s) (copyLibrary trees r i d source dest) (fun _ => Apart ds s)
      (fun _ => Apart ds s) := by
  unfold copyLibrary
  split
  next hthere =>
    apply command_triple
    · intro u v hu hv
      obtain rfl := Option.some.inj hv
      exact hu.put hd hdest _
    · exact fun n u hu _ => hu.put hd hdest _
    · exact fun u hu => hu.put hd hdest _
  next hthere =>
    apply command_triple
    · intro u _ _ hnone
      cases hnone
    · exact fun n u hu _ => hu
    · exact fun u hu => hu

theorem copyLibraries_apart {ds : List Dir} (hd : d ∈ ds) {l : List (Str × Str)}
    (hl : ∀ p ∈ l, sourceOf p.2 ≠ none) :
    Triple (Apart ds s) (copyLibraries trees r i d l) (fun _ => Apart ds s)
      (fun _ => Apart ds s) := by
  induction l with
  | nil => exact Triple.pure fun _ h => h
  | cons p l ih =>
    obtain ⟨hp, hl⟩ := List.forall_mem_cons.mp hl
    exact Triple.bind (copyLibrary_apart hd hp) fun _ => ih hl

theorem sourceOf_copies : ∀ p ∈ copies, sourceOf p.2 ≠ none := by
  decide

theorem copyMultilibs_apart {ds : List Dir} {ws : List Str} (hws : ∀ ml ∈ ws, dir ml ∈ ds) :
    Triple (Apart ds s) (copyMultilibs trees r i ws) (fun _ => Apart ds s)
      (fun _ => Apart ds s) := by
  induction ws generalizing i with
  | nil => exact Triple.pure fun _ h => h
  | cons ml ws ih =>
    obtain ⟨hml, hws⟩ := List.forall_mem_cons.mp hws
    exact Triple.bind (copyLibraries_apart hml sourceOf_copies) fun _ => ih hws

/-- The last line writes no library, and touches the stamp last. -/
theorem copyHeader_keeps {P : Lib → Bool → Prop} :
    Triple (fun s => P s.lib s.stamp) (copyHeader trees r)
      (fun _ s => s.stamp = true ∧ ∃ stamp, P s.lib stamp) (fun _ s => P s.lib s.stamp) := by
  unfold copyHeader
  refine Triple.bind (succeeds_keeps ?_) fun _ =>
    Triple.bind (look_triple (R := fun _ s => P s.lib s.stamp) fun _ h => h) fun s =>
    Triple.bind (succeeds_keeps ?_) fun _ => ?_
  · apply command_triple
    · intro u v hu hv
      obtain rfl := Option.some.inj hv
      exact hu
    · exact fun n u hu _ => hu
    · exact fun u hu => hu
  · split
    next =>
      apply command_triple
      · intro u v hu hv
        obtain rfl := Option.some.inj hv
        exact hu
      · exact fun n u hu _ => hu
      · exact fun u hu => hu
    next =>
      apply command_triple
      · intro u v _ hnone
        cases hnone
      · exact fun n u hu _ => hu
      · exact fun u hu => hu
  · apply command_triple
    · intro u v hu hv
      obtain rfl := Option.some.inj hv
      exact ⟨rfl, _, hu⟩
    · exact fun n u hu _ => hu
    · exact fun u hu => hu

end Keeps

/-! The recipe. -/

section Recipe
variable {trees : Trees} {r : MergeRun} {s t : Installed}

theorem exists_copyHeader_eq_ok :
    (∃ t, copyHeader trees r s = (.ok (), t)) ↔
      r.mkdirHeader ≠ .killed ∧ r.copyHeader ≠ .killed ∧ r.touch = .completes := by
  unfold copyHeader
  constructor
  · rintro ⟨t, h⟩
    obtain ⟨made, u, hmkdir, hrest⟩ := bind_eq_ok.mp h
    obtain ⟨_, _, hlook, hrest⟩ := bind_eq_ok.mp hrest
    cases hlook
    obtain ⟨copied, v, hcopy, htouch⟩ := bind_eq_ok.mp hrest
    refine ⟨exists_succeeds_eq_ok.mp ⟨_, _, hmkdir⟩, ?_, (command_eq_ok.mp htouch).1⟩
    split at hcopy
    next => exact exists_succeeds_eq_ok.mp ⟨_, _, hcopy⟩
    next => exact exists_succeeds_eq_ok.mp ⟨_, _, hcopy⟩
  · rintro ⟨hmkdir, hcopy, htouch⟩
    obtain ⟨made, u, hmade⟩ : ∃ b u, succeeds (command r.mkdirHeader
        (fun s => some { s with headerDir := true }) id) s = (.ok b, u) :=
      exists_succeeds_eq_ok.mpr hmkdir
    have hcopied : ∃ b v, succeeds (
        if trees.nanoHeader.isSome ∧ u.headerDir then
          command r.copyHeader (fun s => some { s with header := trees.nanoHeader })
            (fun s => { s with header := r.headerLeft })
        else command r.copyHeader (fun _ => none) id) u = (.ok b, v) := by
      split
      next => exact exists_succeeds_eq_ok.mpr hcopy
      next => exact exists_succeeds_eq_ok.mpr hcopy
    obtain ⟨copied, v, hcopied⟩ := hcopied
    refine ⟨{ v with stamp := true }, bind_eq_ok.mpr ⟨made, u, hmade, ?_⟩⟩
    refine bind_eq_ok.mpr ⟨u, u, rfl, bind_eq_ok.mpr ⟨copied, v, hcopied, ?_⟩⟩
    exact command_eq_ok.mpr ⟨htouch, rfl⟩

theorem exists_mergeNewlibNano_eq_ok :
    (∃ t, mergeNewlibNano trees r s = (.ok (), t)) ↔ Finishes trees r := by
  unfold mergeNewlibNano
  constructor
  · rintro ⟨t, h⟩
    obtain ⟨_, u, hcopies, hheader⟩ := bind_eq_ok.mp h
    exact ⟨(copyMultilibs_eq_ok.mp hcopies).1, exists_copyHeader_eq_ok.mp ⟨t, hheader⟩⟩
  · rintro ⟨hall, hheader⟩
    obtain ⟨t, hreturns⟩ := exists_copyHeader_eq_ok.mpr hheader
    exact ⟨t, bind_eq_ok.mpr ⟨(), _, copyMultilibs_eq_ok.mpr ⟨hall, rfl⟩, hreturns⟩⟩

theorem mergeNewlibNano_ok (h : mergeNewlibNano trees r s = (.ok (), t)) :
    t.lib = merged trees r.multilibs s.lib ∧ t.stamp = true := by
  obtain ⟨_, u, hcopies, hheader⟩ := bind_eq_ok.mp h
  obtain ⟨-, rfl⟩ := copyMultilibs_eq_ok.mp hcopies
  have hkeeps := @copyHeader_keeps trees r
    (fun lib _ => lib = merged trees r.multilibs s.lib)
    { s with lib := merged trees ((words r.printed).map dir) s.lib } rfl
  rw [hheader] at hkeeps
  obtain ⟨hstamp, _, hlib⟩ := hkeeps
  exact ⟨hlib, hstamp⟩

/-- A run that does not return has not touched the stamp, nor written anything but copies. -/
theorem mergeNewlibNano_error {e : Exit} (h : mergeNewlibNano trees r s = (.error e, t)) :
    Apart r.multilibs s t := by
  have htriple : Triple (Apart r.multilibs s) (mergeNewlibNano trees r) (fun _ _ => True)
      (fun _ => Apart r.multilibs s) := by
    refine Triple.bind (copyMultilibs_apart fun ml hml => List.mem_map_of_mem hml) fun _ => ?_
    refine Triple.conseq (copyHeader_keeps (P := fun lib stamp =>
      (∀ d name, d ∉ r.multilibs ∨ sourceOf name = none → lib d name = s.lib d name) ∧
        stamp = s.stamp)) (fun _ hu => hu) (fun _ _ _ => trivial) fun _ _ hu => hu
  have hpost := htriple s (Apart.refl _ s)
  rw [h] at hpost
  exact hpost

/-- The stamp is made if and only if every copy for every multilib that the compiler printed, and
    the `touch`, completes, and then the libraries are those of newlib-nano there; neither the
    compiler's status nor the header counts. -/
theorem mergeNewlibNano_stamp_iff (trees : Trees) (r : MergeRun) (s : Installed) :
    ((mergeNewlibNano trees r s).2.stamp = true ↔ s.stamp = true ∨ Finishes trees r) ∧
      (Finishes trees r →
        (mergeNewlibNano trees r s).2.lib = merged trees r.multilibs s.lib) := by
  cases hrun : mergeNewlibNano trees r s with
  | mk result t =>
    cases result with
    | ok =>
      obtain ⟨hlib, hstamp⟩ := mergeNewlibNano_ok hrun
      have hfinishes := exists_mergeNewlibNano_eq_ok.mp ⟨t, hrun⟩
      exact ⟨⟨fun _ => Or.inr hfinishes, fun _ => hstamp⟩, fun _ => hlib⟩
    | error e =>
      have hnot : ¬ Finishes trees r := by
        intro hfinishes
        obtain ⟨u, hu⟩ := exists_mergeNewlibNano_eq_ok.mpr hfinishes
        rw [hrun] at hu
        cases hu
      rw [(mergeNewlibNano_error hrun).2]
      exact ⟨⟨Or.inl, fun h => h.resolve_right hnot⟩, fun h => absurd h hnot⟩

def afterMerges (trees : Trees) (history : List MergeRun) (s : Installed) : Installed :=
  after (fun r s => (mergeNewlibNano trees r s).2) history s

theorem merged_of_apart {ds : List Dir} {lib : Lib} {d : Dir} {name : Str}
    (h : d ∉ ds ∨ sourceOf name = none) : merged trees ds lib d name = lib d name := by
  rcases h with hd | hname
  · simp [merged, hd]
  · simp [merged, hname]

theorem mergeNewlibNano_apart (r : MergeRun) (s : Installed) {d : Dir} {name : Str}
    (h : d ∉ r.multilibs ∨ sourceOf name = none) :
    (mergeNewlibNano trees r s).2.lib d name = s.lib d name := by
  cases hrun : mergeNewlibNano trees r s with
  | mk result t =>
    cases result with
    | ok => rw [(mergeNewlibNano_ok hrun).1, merged_of_apart h]
    | error e => exact (mergeNewlibNano_error hrun).1 d name h

theorem afterMerges_apart (history : List MergeRun) (s : Installed) {d : Dir} {name : Str}
    (h : sourceOf name = none ∨ ∀ r ∈ history, d ∉ r.multilibs) :
    (afterMerges trees history s).lib d name = s.lib d name := by
  induction history generalizing s with
  | nil => rfl
  | cons r history ih =>
    have hr : d ∉ r.multilibs ∨ sourceOf name = none :=
      h.symm.imp_left fun hall => hall r List.mem_cons_self
    have hrest := ih (mergeNewlibNano trees r s).2
      (h.imp_right fun hall r' hr' => hall r' (List.mem_cons_of_mem _ hr'))
    exact hrest.trans (mergeNewlibNano_apart r s hr)

/-- However many runs failed or were killed before, one that returns leaves newlib-nano's files
    in all the directories it is told of, and every file that no run was to copy as it was. -/
theorem mergeNewlibNano_heals (history : List MergeRun)
    (h : mergeNewlibNano trees r (afterMerges trees history s) = (.ok (), t)) :
    (∀ d ∈ r.multilibs, ∀ p ∈ copies, t.lib d p.2 = trees.nano d p.1) ∧
      ∀ d name, (sourceOf name = none ∨ ∀ r' ∈ history ++ [r], d ∉ r'.multilibs) →
        t.lib d name = s.lib d name := by
  have hlib := (mergeNewlibNano_ok h).1
  have hsource : ∀ p ∈ copies, sourceOf p.2 = some p.1 := by decide
  refine ⟨fun d hd p hp => ?_, fun d name happart => ?_⟩
  · rw [hlib, merged, if_pos hd, hsource p hp]
  · have hrun : t = (mergeNewlibNano trees r (afterMerges trees history s)).2 := by rw [h]
    have hall : t = afterMerges trees (history ++ [r]) s := by
      rw [hrun, afterMerges, afterMerges, after_append_singleton]
    rw [hall]
    exact afterMerges_apart _ s happart

def bothInstalled : Trees where
  nano _ _ := some [1]
  nanoHeader := some [2]
  dirs _ := true

/-- A compiler with one multilib. -/
def oneMultilib (copy : Event) : MergeRun where
  printed := ".;\n".toList
  copy _ _ := copy
  copyLeft _ _ := none
  mkdirHeader := .completes
  copyHeader := .completes
  headerLeft := none
  touch := .completes

theorem mergeNewlibNano_heals_killed :
    ∃ t, mergeNewlibNano bothInstalled (oneMultilib .completes)
        (afterMerges bothInstalled [oneMultilib .killed] ⟨fun _ _ => some [0], true, none, false⟩) =
          (.ok (), t) ∧
      (∀ p ∈ copies, t.lib [] p.2 = some [1]) ∧ t.lib [] "libc.a".toList = some [0] := by
  have hfinishes : Finishes bothInstalled (oneMultilib .completes) := by
    refine ⟨fun k ml _ p _ => ⟨rfl, rfl, rfl⟩, by decide, by decide, rfl⟩
  obtain ⟨t, hreturns⟩ := exists_mergeNewlibNano_eq_ok.mpr hfinishes
  obtain ⟨hcopied, hkept⟩ := mergeNewlibNano_heals [oneMultilib .killed] hreturns
  refine ⟨t, hreturns, hcopied [] (by decide), ?_⟩
  exact hkept [] "libc.a".toList (Or.inl (by decide))

end Recipe
end Newlib
