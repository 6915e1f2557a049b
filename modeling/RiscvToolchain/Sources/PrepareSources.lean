import RiscvToolchain.Semantics.Guarded
import RiscvToolchain.Python.Str

/- `build/prepare-sources.sh`: the four patched source trees, over runs that may fail or be
   killed at any command.

   Correspondence (bash ↔ Lean):
     `COMPONENTS`, as `read` splits an entry ↔ `COMPONENTS`
     the test in front of `continue`         ↔ `alreadyPrepared`
     `clone_checkout`                        ↔ `cloneCheckout`, its loops `mirrors` and `attempts`
     `git am -3`                             ↔ `am`
     the loop over the components            ↔ `prepareSources`
   Commits are of any type. `commitOf` is the commit a pinned SHA names, in whatever
   mirror; `patched` is what `git am` makes of a commit with a patch of `$PATCHDIR`
   (`none` is a conflict), and belongs to the run, since the patches may change between
   two runs. What becomes of each command, what a mirror's HEAD is and what is left by
   a command that does not complete are the world's (`Fates`). A script killed between
   two commands is one killed at the second before it did anything.

   `prepareSources_prepared_iff` is about histories of runs: the test in front of
   `continue` asks whether HEAD resolves, and HEAD resolves from the end of the clone
   on, well before the end of `git am`. -/
namespace Sources
open Python Shell Semantics
variable {Commit : Type}

structure Component where
  name : Str
  sha : Str
  patch : Str
  urls : List Str
  deriving DecidableEq, Repr

def COMPONENTS : List Component :=
  [⟨"binutils".toList, "675b9d6".toList, "riscv-binutils.patch".toList,
      ["https://github.com/RTEMS/sourceware-mirror-binutils-gdb.git".toList,
        "https://sourceware.org/git/binutils-gdb.git".toList]⟩,
    ⟨"gcc".toList, "cd0059a".toList, "riscv-gcc.patch".toList,
      ["https://github.com/gcc-mirror/gcc.git".toList]⟩,
    ⟨"newlib".toList, "26f7004".toList, "riscv-newlib.patch".toList,
      ["https://github.com/RTEMS/sourceware-mirror-newlib-cygwin.git".toList,
        "https://github.com/mirror/newlib-cygwin.git".toList,
        "https://sourceware.org/git/newlib-cygwin.git".toList]⟩,
    ⟨"gdb".toList, "6bda1c1".toList, "riscv-gdb.patch".toList,
      ["https://github.com/RTEMS/sourceware-mirror-binutils-gdb.git".toList,
        "https://sourceware.org/git/binutils-gdb.git".toList]⟩]

/-- A directory of `$SOURCES`: whether `.git` is there, and the commit that HEAD resolves to. -/
structure Repo (Commit : Type) where
  git : Bool
  head : Option Commit
  deriving DecidableEq, Repr

/-- `.git` is there and `git rev-parse HEAD` succeeds. -/
def alreadyPrepared : Option (Repo Commit) → Bool
  | some repo => repo.git && repo.head.isSome
  | none => false

/-- One attempt at one mirror. -/
structure Attempt (Commit : Type) where
  rm : Removal (@alreadyPrepared Commit)
  clone : Event
  checkout : Event
  sleep : Event
  /-- HEAD of the mirror. -/
  upstream : Option Commit
  afterClone : Option (Repo Commit)
  afterCheckout : Option (Repo Commit)

/-- What becomes of a component's commands. -/
structure Fates (Commit : Type) where
  rm : Removal (@alreadyPrepared Commit)
  attempt : Str → Nat → Attempt Commit
  am : Event
  afterAm : Option (Repo Commit)

structure Run (Commit : Type) where
  patched : Commit → Str → Option Commit
  mkdir : Event
  fates : Str → Fates Commit

section Script
variable (commitOf : Str → Commit)

/-- `git clone --no-checkout`. -/
def clone (a : Attempt Commit) : Script (Option (Repo Commit)) Unit :=
  command a.clone (fun _ => some (some ⟨true, a.upstream⟩)) fun _ => a.afterClone

def checkout (a : Attempt Commit) (sha : Str) : Script (Option (Repo Commit)) Unit :=
  command a.checkout (fun s => some (s.map fun repo => { repo with head := some (commitOf sha) }))
    fun _ => a.afterCheckout

def sleep (a : Attempt Commit) : Script (Option (Repo Commit)) Unit := command a.sleep some id

/-- The two conditions of the inner loop. -/
def fetched (a : Attempt Commit) (sha : Str) : Script (Option (Repo Commit)) Bool := do
  if ← succeeds (clone a) then succeeds (checkout commitOf a sha) else return false

def attempts (a : Nat → Attempt Commit) (sha : Str) : List Nat → Script (Option (Repo Commit)) Bool
  | [] => return false
  | k :: rest => do
    rm (a k).rm none
    if ← fetched commitOf (a k) sha then return true
    else do
      sleep (a k)
      attempts a sha rest

/-- Behind the last mirror the function returns 1, which ends the script. -/
def mirrors (a : Str → Nat → Attempt Commit) (sha : Str) : List Str → Script (Option (Repo Commit)) Unit
  | [] => exit 1
  | url :: rest => do
    if ← attempts commitOf (a url) sha [1, 2, 3] then return ()
    else mirrors a sha rest

def cloneCheckout (f : Fates Commit) (sha : Str) (urls : List Str) :
    Script (Option (Repo Commit)) Unit := do
  rm f.rm none
  mirrors commitOf f.attempt sha urls

def am (patched : Commit → Str → Option Commit) (f : Fates Commit) (patch : Str) :
    Script (Option (Repo Commit)) Unit :=
  command f.am
    (fun s => s.bind fun repo => repo.head.bind fun head =>
      (patched head patch).map fun new => some { repo with head := some new })
    fun _ => f.afterAm

def prepare (r : Run Commit) (c : Component) : Script (Option (Repo Commit)) Unit :=
  guarded alreadyPrepared do
    cloneCheckout commitOf (r.fates c.name) c.sha c.urls
    am r.patched (r.fates c.name) c.patch

/-- What is at `$SOURCES/$name`, for each name. -/
abbrev SourcesDir (Commit : Type) : Type := Str → Option (Repo Commit)

def prepareSources (r : Run Commit) : Script (SourcesDir Commit) Unit := do
  command r.mkdir some id
  stages Component.name (prepare commitOf r) COMPONENTS

end Script

/-! One component: its attempts, mirror by mirror and three at each. -/

section Attempts
variable (commitOf : Str → Commit)

/-- The attempt gets the commit. -/
def Attempt.Fetched (a : Attempt Commit) : Prop :=
  a.rm.event = .completes ∧ a.clone = .completes ∧ a.checkout = .completes

/-- The clone or the checkout fails, and the script goes on to the next attempt. -/
def Attempt.Retried (a : Attempt Commit) : Prop :=
  a.rm.event = .completes ∧
    ((∃ n, a.clone = .fails n) ∨ (a.clone = .completes ∧ ∃ n, a.checkout = .fails n)) ∧
    a.sleep = .completes

/-- What the attempt leaves when it does not get the commit. -/
def Attempt.left (a : Attempt Commit) : Option (Repo Commit) :=
  match a.clone with
  | .completes => a.afterCheckout
  | _ => a.afterClone

variable {commitOf}

theorem fetched_of_completes {a : Attempt Commit} {sha : Str} {s : Option (Repo Commit)}
    (hclone : a.clone = .completes) (hcheckout : a.checkout = .completes) :
    fetched commitOf a sha s = (.ok true, some ⟨true, some (commitOf sha)⟩) := by
  unfold fetched Shell.succeeds clone checkout command
  rw [hclone, hcheckout]
  rfl

theorem fetched_of_fails {a : Attempt Commit} {sha : Str} {s : Option (Repo Commit)}
    (h : (∃ n, a.clone = .fails n) ∨ (a.clone = .completes ∧ ∃ n, a.checkout = .fails n)) :
    fetched commitOf a sha s = (.ok false, a.left) := by
  unfold fetched Shell.succeeds clone checkout command Attempt.left
  rcases h with ⟨n, hclone⟩ | ⟨hclone, n, hcheckout⟩
  · rw [hclone]
    rfl
  · rw [hclone, hcheckout]
    rfl

/-- Otherwise the script is killed there. -/
theorem fetched_of_killed {a : Attempt Commit} {sha : Str} {s : Option (Repo Commit)}
    (h : a.clone = .killed ∨ (a.clone = .completes ∧ a.checkout = .killed)) :
    fetched commitOf a sha s = (.error .killed, a.left) := by
  unfold fetched Shell.succeeds clone checkout command Attempt.left
  rcases h with hclone | ⟨hclone, hcheckout⟩
  · rw [hclone]
    rfl
  · rw [hclone, hcheckout]
    rfl

variable {a : Nat → Attempt Commit} {sha : Str} {k : Nat} {rest : List Nat}
  {s : Option (Repo Commit)}

theorem attempts_of_fetched (h : (a k).Fetched) :
    attempts commitOf a sha (k :: rest) s = (.ok true, some ⟨true, some (commitOf sha)⟩) := by
  rw [attempts, Prog.bind_apply, rm_of_completes h.1]
  dsimp only
  rw [Prog.bind_apply, fetched_of_completes h.2.1 h.2.2]
  rfl

theorem attempts_of_retried (h : (a k).Retried) :
    attempts commitOf a sha (k :: rest) s = attempts commitOf a sha rest (a k).left := by
  rw [attempts, Prog.bind_apply, rm_of_completes h.1]
  dsimp only
  rw [Prog.bind_apply, fetched_of_fails h.2.1]
  have hsleep : sleep (a k) (a k).left = (.ok (), (a k).left) := by
    unfold sleep command
    rw [h.2.2]
  dsimp only
  rw [if_neg Bool.false_ne_true, Prog.bind_apply, hsleep]

/-- An attempt that neither gets the commit nor goes on ends the script. -/
theorem attempts_of_stops (commitOf : Str → Commit) (sha : Str) (rest : List Nat)
    (s : Option (Repo Commit)) (hfetched : ¬ (a k).Fetched) (hretried : ¬ (a k).Retried) :
    ∃ e, attempts commitOf a sha (k :: rest) s =
      (.error e, if (a k).rm.event = .completes then (a k).left else (a k).rm.left s) := by
  rw [attempts, Prog.bind_apply]
  by_cases hrm : (a k).rm.event = .completes
  · rw [rm_of_completes hrm, if_pos hrm]
    dsimp only
    rw [Prog.bind_apply]
    by_cases hfails : (∃ n, (a k).clone = .fails n) ∨
        ((a k).clone = .completes ∧ ∃ n, (a k).checkout = .fails n)
    · rw [fetched_of_fails hfails]
      dsimp only
      rw [if_neg Bool.false_ne_true, Prog.bind_apply]
      unfold sleep command
      cases hsleep : (a k).sleep with
      | completes => exact absurd ⟨hrm, hfails, hsleep⟩ hretried
      | fails n => exact ⟨_, rfl⟩
      | killed => exact ⟨_, rfl⟩
    · have hkilled : (a k).clone = .killed ∨
          ((a k).clone = .completes ∧ (a k).checkout = .killed) := by
        cases hclone : (a k).clone with
        | killed => exact Or.inl rfl
        | fails n => exact absurd (Or.inl ⟨n, hclone⟩) hfails
        | completes =>
          cases hcheckout : (a k).checkout with
          | killed => exact Or.inr ⟨rfl, rfl⟩
          | fails n => exact absurd (Or.inr ⟨hclone, n, hcheckout⟩) hfails
          | completes => exact absurd ⟨hrm, hclone, hcheckout⟩ hfetched
      rw [fetched_of_killed hkilled]
      exact ⟨_, rfl⟩
  · obtain ⟨e, he⟩ := rm_of_stops (s := s) hrm
    rw [he, if_neg hrm]
    exact ⟨e, rfl⟩

end Attempts

/-! All attempts of a component, in their order. -/

section Tries
variable (a : Str → Nat → Attempt Commit)

def tries (urls : List Str) : List (Str × Nat) := urls.flatMap fun url => [1, 2, 3].map (url, ·)

/-- Some attempt gets the commit, and the script went on from every one before it. -/
def SomeFetched : List (Str × Nat) → Prop
  | [] => False
  | p :: rest => (a p.1 p.2).Fetched ∨ ((a p.1 p.2).Retried ∧ SomeFetched rest)

def AllRetried (l : List (Str × Nat)) : Prop := ∀ p ∈ l, (a p.1 p.2).Retried

/-- What the attempts leave, when the script went on from each. -/
def leftBy (l : List (Str × Nat)) (s : Option (Repo Commit)) : Option (Repo Commit) :=
  l.foldl (fun _ p => (a p.1 p.2).left) s

variable {a}

theorem someFetched_append {l m : List (Str × Nat)} :
    SomeFetched a (l ++ m) ↔ SomeFetched a l ∨ (AllRetried a l ∧ SomeFetched a m) := by
  induction l with
  | nil => simp [SomeFetched, AllRetried]
  | cons p l ih =>
    simp only [List.cons_append, SomeFetched, ih, AllRetried, List.forall_mem_cons]
    constructor
    · rintro (h | ⟨hp, h | ⟨hl, h⟩⟩)
      · exact Or.inl (Or.inl h)
      · exact Or.inl (Or.inr ⟨hp, h⟩)
      · exact Or.inr ⟨⟨hp, hl⟩, h⟩
    · rintro ((h | ⟨hp, h⟩) | ⟨⟨hp, hl⟩, h⟩)
      · exact Or.inl h
      · exact Or.inr ⟨hp, Or.inl h⟩
      · exact Or.inr ⟨hp, Or.inr ⟨hl, h⟩⟩

variable {commitOf : Str → Commit} {sha : Str} {s t : Option (Repo Commit)}

theorem not_retried_of_fetched {b : Attempt Commit} (h : b.Fetched) : ¬ b.Retried := by
  rintro ⟨-, ⟨n, hclone⟩ | ⟨-, n, hcheckout⟩, -⟩
  · rw [h.2.1] at hclone
    cases hclone
  · rw [h.2.2] at hcheckout
    cases hcheckout

theorem not_someFetched_of_allRetried {l : List (Str × Nat)} (h : AllRetried a l) :
    ¬ SomeFetched a l := by
  induction l with
  | nil => exact id
  | cons p l ih =>
    obtain ⟨hp, hl⟩ := List.forall_mem_cons.mp h
    rintro (hfetched | ⟨-, hfetched⟩)
    · exact not_retried_of_fetched hfetched hp
    · exact ih hl hfetched

/-- How the attempts at one mirror end. -/
theorem attempts_eq (a : Str → Nat → Attempt Commit) (commitOf : Str → Commit) (sha url : Str)
    (l : List Nat) (s : Option (Repo Commit)) :
    (SomeFetched a (l.map (url, ·)) ∧
        attempts commitOf (a url) sha l s = (.ok true, some ⟨true, some (commitOf sha)⟩)) ∨
      (AllRetried a (l.map (url, ·)) ∧
        attempts commitOf (a url) sha l s = (.ok false, leftBy a (l.map (url, ·)) s)) ∨
      (¬ SomeFetched a (l.map (url, ·)) ∧ ¬ AllRetried a (l.map (url, ·)) ∧
        ∃ e u, attempts commitOf (a url) sha l s = (.error e, u)) := by
  induction l generalizing s with
  | nil => exact Or.inr (Or.inl ⟨by simp [AllRetried], rfl⟩)
  | cons k l ih =>
    by_cases hfetched : (a url k).Fetched
    · exact Or.inl ⟨Or.inl hfetched, attempts_of_fetched hfetched⟩
    · by_cases hretried : (a url k).Retried
      · rw [attempts_of_retried hretried]
        rcases ih (a url k).left with ⟨h, heq⟩ | ⟨h, heq⟩ | ⟨hnot, hnot', heq⟩
        · exact Or.inl ⟨Or.inr ⟨hretried, h⟩, heq⟩
        · exact Or.inr (Or.inl ⟨List.forall_mem_cons.mpr ⟨hretried, h⟩, heq⟩)
        · refine Or.inr (Or.inr ⟨?_, ?_, heq⟩)
          · rintro (h | ⟨-, h⟩)
            · exact hfetched h
            · exact hnot h
          · exact fun h => hnot' (List.forall_mem_cons.mp h).2
      · obtain ⟨e, he⟩ := attempts_of_stops commitOf sha l s hfetched hretried
        refine Or.inr (Or.inr ⟨?_, ?_, e, _, he⟩)
        · rintro (h | ⟨h, -⟩)
          · exact hfetched h
          · exact hretried h
        · exact fun h => hretried (List.forall_mem_cons.mp h).1

theorem mirrors_eq (a : Str → Nat → Attempt Commit) (commitOf : Str → Commit) (sha : Str)
    (urls : List Str) (s : Option (Repo Commit)) :
    (SomeFetched a (tries urls) ∧
        mirrors commitOf a sha urls s = (.ok (), some ⟨true, some (commitOf sha)⟩)) ∨
      (AllRetried a (tries urls) ∧
        mirrors commitOf a sha urls s = (.error (.status 1), leftBy a (tries urls) s)) ∨
      (¬ SomeFetched a (tries urls) ∧ ¬ AllRetried a (tries urls) ∧
        ∃ e u, mirrors commitOf a sha urls s = (.error e, u)) := by
  induction urls generalizing s with
  | nil => exact Or.inr (Or.inl ⟨by simp [AllRetried, tries], rfl⟩)
  | cons url urls ih =>
    have htries : tries (url :: urls) = [1, 2, 3].map (url, ·) ++ tries urls := rfl
    rw [htries, someFetched_append, mirrors, Prog.bind_apply]
    rcases attempts_eq a commitOf sha url [1, 2, 3] s with
      ⟨h, heq⟩ | ⟨h, heq⟩ | ⟨hnot, hnot', e, u, heq⟩
    · rw [heq]
      exact Or.inl ⟨Or.inl h, rfl⟩
    · rw [heq]
      dsimp only
      rw [if_neg Bool.false_ne_true]
      rcases ih (leftBy a ([1, 2, 3].map (url, ·)) s) with
        ⟨h', heq'⟩ | ⟨h', heq'⟩ | ⟨hnot, hnot', heq'⟩
      · exact Or.inl ⟨Or.inr ⟨h, h'⟩, heq'⟩
      · refine Or.inr (Or.inl ⟨List.forall_mem_append.mpr ⟨h, h'⟩, heq'.trans ?_⟩)
        rw [leftBy, leftBy, leftBy, List.foldl_append]
      · refine Or.inr (Or.inr ⟨?_, fun h => hnot' (List.forall_mem_append.mp h).2, heq'⟩)
        rintro (hfetched | ⟨-, h⟩)
        · exact not_someFetched_of_allRetried h hfetched
        · exact hnot h
    · rw [heq]
      refine Or.inr (Or.inr ⟨?_, fun h => hnot' (List.forall_mem_append.mp h).1, e, u, rfl⟩)
      rintro (h | ⟨h, -⟩)
      · exact hnot h
      · exact hnot' h

theorem cloneCheckout_eq_ok {f : Fates Commit} {urls : List Str}
    (h : cloneCheckout commitOf f sha urls s = (.ok (), t)) :
    t = some ⟨true, some (commitOf sha)⟩ := by
  obtain ⟨_, u, -, hmirrors⟩ := bind_eq_ok.mp h
  rcases mirrors_eq f.attempt commitOf sha urls u with
    ⟨-, heq⟩ | ⟨-, heq⟩ | ⟨-, -, e, v, heq⟩
  · rw [heq] at hmirrors
    cases hmirrors
    rfl
  · rw [heq] at hmirrors
    cases hmirrors
  · rw [heq] at hmirrors
    cases hmirrors

/-- The clone returns exactly when some attempt gets the commit, the script having gone on from each
    attempt before it, in the order of the mirrors and three times at each. Where it went on from
    all of them the script ends with 1, and the last attempt's directory stays. -/
theorem cloneCheckout_iff (f : Fates Commit) (urls : List Str) :
    (cloneCheckout commitOf f sha urls s = (.ok (), t) ↔
      f.rm.event = .completes ∧ SomeFetched f.attempt (tries urls) ∧
        t = some ⟨true, some (commitOf sha)⟩) ∧
    (f.rm.event = .completes → AllRetried f.attempt (tries urls) →
      cloneCheckout commitOf f sha urls s = (.error (.status 1), leftBy f.attempt (tries urls) none)) := by
  rw [cloneCheckout, Prog.bind_apply]
  by_cases hrm : f.rm.event = .completes
  · rw [rm_of_completes hrm]
    dsimp only
    rcases mirrors_eq f.attempt commitOf sha urls none with
      ⟨h, heq⟩ | ⟨h, heq⟩ | ⟨hnot, hnot', e, u, heq⟩
    · rw [heq]
      refine ⟨⟨?_, ?_⟩, fun _ h' => absurd h (not_someFetched_of_allRetried h')⟩
      · intro ht
        exact ⟨hrm, h, (Prod.mk.inj ht).2.symm⟩
      · rintro ⟨-, -, rfl⟩
        rfl
    · rw [heq]
      refine ⟨⟨fun ht => (by cases ht), ?_⟩, fun _ _ => rfl⟩
      rintro ⟨-, h', -⟩
      exact absurd h' (not_someFetched_of_allRetried h)
    · rw [heq]
      exact ⟨⟨fun ht => (by cases ht), fun h => absurd h.2.1 hnot⟩, fun _ h => absurd h hnot'⟩
  · obtain ⟨e, he⟩ := rm_of_stops (s := s) hrm
    rw [he]
    exact ⟨⟨fun ht => (by cases ht), fun h => absurd h.1 hrm⟩, fun h => absurd h hrm⟩

end Tries

/-! Histories of runs. -/

section Histories
variable (commitOf : Str → Commit)

/-- The patched commit of the component is checked out, with the patches of the run. -/
def Prepared (r : Run Commit) (c : Component) (s : Option (Repo Commit)) : Prop :=
  ∃ head, r.patched (commitOf c.sha) c.patch = some head ∧ s = some ⟨true, some head⟩

/-- The runs, one after another. -/
def afterRuns (history : List (Run Commit)) (s : SourcesDir Commit) : SourcesDir Commit :=
  after (fun r s => (prepareSources commitOf r s).2) history s

/-- A directory that a later run takes for the prepared one, and that is not. -/
def Mistaken (r : Run Commit) (c : Component) (s : SourcesDir Commit) : Prop :=
  Stale alreadyPrepared (Prepared commitOf r c) (s c.name)

variable {commitOf}

theorem names_nodup : (COMPONENTS.map Component.name).Nodup := by decide

theorem body_prepared {r : Run Commit} {c : Component} {s t : Option (Repo Commit)}
    (h : (do cloneCheckout commitOf (r.fates c.name) c.sha c.urls
             am r.patched (r.fates c.name) c.patch : Script _ Unit) s = (.ok (), t)) :
    Prepared commitOf r c t := by
  obtain ⟨_, u, hclone, ham⟩ := bind_eq_ok.mp h
  obtain rfl := cloneCheckout_eq_ok hclone
  obtain ⟨-, ham⟩ := command_eq_ok.mp ham
  obtain ⟨head, hpatched, rfl⟩ := Option.map_eq_some_iff.mp ham
  exact ⟨head, hpatched, rfl⟩

/-- A stage that returns has prepared its component, unless it passed over a mistaken directory. -/
theorem prepare_iff {r : Run Commit} {c : Component} {s t : Option (Repo Commit)}
    (h : prepare commitOf r c s = (.ok (), t)) :
    Prepared commitOf r c t ↔ ¬ Stale alreadyPrepared (Prepared commitOf r c) s :=
  guarded_good_iff (fun _ _ => body_prepared) h

/-- A run leaves a component's directory as it was, or as the component's stage made it. -/
theorem prepareSources_part (r : Run Commit) (s : SourcesDir Commit) {c : Component}
    (hc : c ∈ COMPONENTS) :
    (prepareSources commitOf r s).2 c.name = s c.name ∨
      (prepareSources commitOf r s).2 c.name = (prepare commitOf r c (s c.name)).2 := by
  rw [prepareSources, Prog.bind_apply]
  unfold command
  cases r.mkdir with
  | completes =>
    rcases stages_part (x := prepare commitOf r) names_nodup s c.name with h | ⟨c', hc', hname, h⟩
    · exact Or.inl h
    · cases List.inj_on_of_nodup_map names_nodup hc' hc hname
      exact Or.inr h
  | fails n => exact Or.inl rfl
  | killed => exact Or.inl rfl

theorem prepareSources_returns {r : Run Commit} {s : SourcesDir Commit}
    (h : (prepareSources commitOf r s).1 = .ok ()) {c : Component} (hc : c ∈ COMPONENTS) :
    prepare commitOf r c (s c.name) = (.ok (), (prepareSources commitOf r s).2 c.name) := by
  obtain ⟨_, u, hmkdir, hstages⟩ := bind_eq_ok.mp (Prod.ext h rfl :
    prepareSources commitOf r s = (.ok (), (prepareSources commitOf r s).2))
  cases (command_eq_ok.mp hmkdir).2
  exact stages_eq_ok names_nodup hstages c hc

theorem prepareSources_skips (r : Run Commit) {s : SourcesDir Commit} {c : Component}
    (hc : c ∈ COMPONENTS) (h : alreadyPrepared (s c.name) = true) :
    (prepareSources commitOf r s).2 c.name = s c.name := by
  rcases prepareSources_part r s hc with heq | heq
  · exact heq
  · rw [heq, prepare, guarded_of_test h]

theorem mistaken_afterRuns_iff {c : Component} (hc : c ∈ COMPONENTS) (r : Run Commit)
    (history : List (Run Commit)) (s : SourcesDir Commit) :
    Mistaken commitOf r c (afterRuns commitOf history s) ↔
      Mistaken commitOf r c s ∨ ∃ before r' rest, history = before ++ r' :: rest ∧
        alreadyPrepared (afterRuns commitOf before s c.name) = false ∧
        Mistaken commitOf r c (afterRuns commitOf (before ++ [r']) s) := by
  have hskip : ∀ (r' : Run Commit) (s : SourcesDir Commit), alreadyPrepared (s c.name) = true →
      (prepareSources commitOf r' s).2 c.name = s c.name :=
    fun r' _ h => prepareSources_skips r' hc h
  exact after_stale_iff hskip history s

/-- After any runs, each failed or killed anywhere, a run that returns has left a component prepared
    exactly when the directory was not mistaken at the start and no earlier run, finding it not
    yet prepared, left it mistaken. -/
theorem prepareSources_prepared_iff (history : List (Run Commit)) (r : Run Commit)
    (s : SourcesDir Commit)
    (h : (prepareSources commitOf r (afterRuns commitOf history s)).1 = .ok ())
    {c : Component} (hc : c ∈ COMPONENTS) :
    Prepared commitOf r c ((prepareSources commitOf r (afterRuns commitOf history s)).2 c.name) ↔
      ¬ Mistaken commitOf r c s ∧ ¬ ∃ before r' rest, history = before ++ r' :: rest ∧
        alreadyPrepared (afterRuns commitOf before s c.name) = false ∧
        Mistaken commitOf r c (afterRuns commitOf (before ++ [r']) s) := by
  rw [prepare_iff (prepareSources_returns h hc), ← not_or]
  exact not_congr (mistaken_afterRuns_iff hc r history s)

/-! Runs that do not get as far as a clone. -/

/-- No clone of the component completes, and none leaves a HEAD that resolves. -/
def Run.NoClone (r : Run Commit) (c : Component) : Prop :=
  ∀ p ∈ tries c.urls, ((r.fates c.name).attempt p.1 p.2).clone ≠ .completes ∧
    alreadyPrepared ((r.fates c.name).attempt p.1 p.2).afterClone = false

theorem attempts_of_noClone (commitOf : Str → Commit) (a : Nat → Attempt Commit) (sha : Str)
    (l : List Nat)
    (ha : ∀ k ∈ l, (a k).clone ≠ .completes ∧ alreadyPrepared (a k).afterClone = false)
    {s : Option (Repo Commit)} (hs : alreadyPrepared s = false) :
    (attempts commitOf a sha l s).1 ≠ .ok true ∧
      alreadyPrepared (attempts commitOf a sha l s).2 = false := by
  induction l generalizing s with
  | nil => exact ⟨fun h => Bool.false_ne_true (Except.ok.inj h), hs⟩
  | cons k l ih =>
    obtain ⟨⟨hclone, hafter⟩, hl⟩ := List.forall_mem_cons.mp ha
    have hleft : (a k).left = (a k).afterClone := by
      rw [Attempt.left]
      cases h : (a k).clone with
      | completes => exact absurd h hclone
      | fails n => rfl
      | killed => rfl
    by_cases hretried : (a k).Retried
    · rw [attempts_of_retried hretried]
      exact ih hl (hleft ▸ hafter)
    · obtain ⟨e, he⟩ := attempts_of_stops commitOf sha l s (fun h => hclone h.2.1) hretried
      rw [he]
      refine ⟨nofun, ?_⟩
      by_cases hrm : (a k).rm.event = .completes
      · rw [if_pos hrm, hleft]
        exact hafter
      · rw [if_neg hrm]
        exact (a k).rm.left_eq_false hs

theorem mirrors_of_noClone (commitOf : Str → Commit) {a : Str → Nat → Attempt Commit} (sha : Str)
    {urls : List Str}
    (ha : ∀ p ∈ tries urls, (a p.1 p.2).clone ≠ .completes ∧
      alreadyPrepared (a p.1 p.2).afterClone = false)
    {s : Option (Repo Commit)} (hs : alreadyPrepared s = false) :
    (mirrors commitOf a sha urls s).1 ≠ .ok () ∧
      alreadyPrepared (mirrors commitOf a sha urls s).2 = false := by
  induction urls generalizing s with
  | nil => exact ⟨nofun, hs⟩
  | cons url urls ih =>
    obtain ⟨hurl, hurls⟩ := List.forall_mem_append.mp ha
    obtain ⟨hne, hu⟩ := attempts_of_noClone commitOf (a url) sha
      [1, 2, 3] (fun k hk => hurl (url, k) (List.mem_map_of_mem hk)) hs
    rw [mirrors, Prog.bind_apply]
    cases hr : attempts commitOf (a url) sha [1, 2, 3] s with
    | mk r u =>
      rw [hr] at hne hu
      cases r with
      | error e => exact ⟨nofun, hu⟩
      | ok b =>
        cases b with
        | true => exact absurd rfl hne
        | false => exact ih hurls hu

/-- Such a run leaves the component to later runs. -/
theorem prepare_of_noClone {r : Run Commit} {c : Component} (hr : r.NoClone c)
    {s : Option (Repo Commit)} (hs : alreadyPrepared s = false) :
    alreadyPrepared (prepare commitOf r c s).2 = false := by
  rw [prepare, guarded_of_not_test hs, Prog.bind_apply, cloneCheckout, Prog.bind_apply]
  by_cases hrm : (r.fates c.name).rm.event = .completes
  · rw [rm_of_completes hrm]
    dsimp only
    obtain ⟨hne, hu⟩ := mirrors_of_noClone commitOf c.sha hr
      (rfl : alreadyPrepared (none : Option (Repo Commit)) = false)
    cases hm : mirrors commitOf (r.fates c.name).attempt c.sha c.urls none with
    | mk x u =>
      rw [hm] at hne hu
      cases x with
      | ok => exact absurd rfl hne
      | error e => exact hu
  · obtain ⟨e, he⟩ := rm_of_stops (s := s) hrm
    rw [he]
    exact (r.fates c.name).rm.left_eq_false hs

/-- If every earlier run either brought the component's stage to its end, with the same patches, or
    completed no clone of it, then a run that returns has left the component prepared. -/
theorem prepareSources_prepared (history : List (Run Commit)) (r : Run Commit)
    (s : SourcesDir Commit)
    (h : (prepareSources commitOf r (afterRuns commitOf history s)).1 = .ok ())
    {c : Component} (hc : c ∈ COMPONENTS) (hstart : alreadyPrepared (s c.name) = false)
    (hhistory : ∀ before r' rest, history = before ++ r' :: rest →
      (r'.patched = r.patched ∧
        (prepare commitOf r' c (afterRuns commitOf before s c.name)).1 = .ok ()) ∨ r'.NoClone c) :
    Prepared commitOf r c ((prepareSources commitOf r (afterRuns commitOf history s)).2 c.name) := by
  refine (prepare_iff (prepareSources_returns h hc)).mpr fun hstale => ?_
  rcases (mistaken_afterRuns_iff hc r history s).mp hstale with
    hmistaken | ⟨before, r', rest, hsplit, htest, hmistaken⟩
  · exact Bool.false_ne_true (hstart.symm.trans hmistaken.1)
  · have hlast : afterRuns commitOf (before ++ [r']) s =
        (prepareSources commitOf r' (afterRuns commitOf before s)).2 :=
      after_append_singleton before r' s
    rw [hlast] at hmistaken
    rcases prepareSources_part r' (afterRuns commitOf before s) hc with heq | heq
    · rw [Mistaken, heq] at hmistaken
      exact Bool.false_ne_true (htest.symm.trans hmistaken.1)
    · rw [Mistaken, heq] at hmistaken
      rcases hhistory before r' rest hsplit with ⟨hpatched, hok⟩ | hclone
      · -- the stage's own run prepared it, with the patches of the last one
        rw [prepare, guarded_of_not_test htest] at hok hmistaken
        obtain ⟨head, hhead, heq'⟩ := body_prepared (Prod.ext hok rfl)
        exact hmistaken.2 ⟨head, hpatched ▸ hhead, heq'⟩
      · exact Bool.false_ne_true ((prepare_of_noClone hclone htest).symm.trans hmistaken.1)

end Histories

/-! Runs over trees whose commits are numbers: the pinned commits are 0, and patched they are 1. -/

def pinned (_sha : Str) : Nat := 0

def rmCompletes : Removal (@alreadyPrepared Nat) := ⟨.completes, fun _ => none, nofun⟩

/-- Every attempt clones, and checks the commit out. -/
def online (am : Event) : Fates Nat where
  rm := rmCompletes
  attempt := fun _ _ => ⟨rmCompletes, .completes, .completes, .completes, some 9, none, none⟩
  am := am
  afterAm := some ⟨true, some 0⟩

/-- Every clone fails. -/
def offline : Fates Nat where
  rm := rmCompletes
  attempt := fun _ _ => ⟨rmCompletes, .fails 127, .completes, .completes, some 9, none, none⟩
  am := .completes
  afterAm := none

def runOf (f : Fates Nat) : Run Nat := ⟨fun c _ => some (c + 1), .completes, fun _ => f⟩

def gcc : Component := COMPONENTS[1]

/-- The patch of GCC did not apply, and the next run passes over GCC. -/
def afterConflict : List (Run Nat) :=
  [⟨fun c _ => some (c + 1), .completes, fun name =>
    online (if name = "gcc".toList then .fails 127 else .completes)⟩]

theorem prepareSources_prepared_iff_conflict :
    (prepareSources pinned (runOf (online .completes))
        (afterRuns pinned afterConflict fun _ => none)).1 = .ok () ∧
      ¬ Prepared pinned (runOf (online .completes)) gcc
        ((prepareSources pinned (runOf (online .completes))
          (afterRuns pinned afterConflict fun _ => none)).2 gcc.name) := by
  have hok : (prepareSources pinned (runOf (online .completes))
      (afterRuns pinned afterConflict fun _ => none)).1 = .ok () := rfl
  have hleft : afterRuns pinned afterConflict (fun _ => none) gcc.name = some ⟨true, some 0⟩ := rfl
  refine ⟨hok, fun h => ?_⟩
  refine ((prepareSources_prepared_iff afterConflict _ _ hok (by decide)).mp h).2
    ⟨[], _, [], rfl, rfl, ?_⟩
  refine ⟨congrArg alreadyPrepared hleft, ?_⟩
  rintro ⟨head, hhead, hprepared⟩
  rw [show [] ++ [_] = afterConflict from rfl, hleft] at hprepared
  cases hhead
  cases hprepared

/-- After a run that reached no mirror. -/
theorem prepareSources_prepared_offline :
    Prepared pinned (runOf (online .completes)) gcc
      ((prepareSources pinned (runOf (online .completes))
        (afterRuns pinned [runOf offline] fun _ => none)).2 gcc.name) := by
  refine prepareSources_prepared [runOf offline] _ _ rfl (by decide) rfl ?_
  intro before r' rest hsplit
  have hr : r' = runOf offline :=
    List.mem_singleton.mp (hsplit ▸ List.mem_append_right before List.mem_cons_self)
  subst hr
  exact Or.inr fun p hp => ⟨nofun, rfl⟩

end Sources
