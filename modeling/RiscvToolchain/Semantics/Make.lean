import Mathlib.Data.Finset.Basic
import Mathlib.Logic.Function.Basic
import Mathlib.Logic.Relation

/- A parallel `make` over rules whose recipes make their target with the last line.

   A makefile gives the prerequisites and the recipe of each target; a file without a rule is a
   source, and is there. What happens to the files is a log, and the time of a file is the
   place of its making there (`time`), so that no two files have one time. A run considers a
   target when its prerequisites are done; where the target is missing or older than one of
   them the recipe starts, and the target is done when it ends; else it is done at once
   (`Step`). Recipes run side by side, line by line, and any of them may fail, after which no
   other starts. A run may be killed anywhere, and sources change between runs only
   (`Happens`).

   Of every state that any number of runs come to, `Inv` holds: a target that is there was made
   by the last start of its recipe, or is older than a prerequisite; and what a run is done
   with is up to date. -/
namespace Make
variable {τ : Type}

/-- A line of a recipe: it removes the target, makes it, or does the work. -/
inductive Command where
  | rm
  | work
  | touch
  deriving DecidableEq, Repr

/-- The target is made at the end, and not before. -/
def ToTouch (lines : List Command) : Prop := ∃ init, lines = init ++ [.touch] ∧ .touch ∉ init

structure Rule (τ : Type) where
  prereqs : List τ
  recipe : List Command
  ends : ToTouch recipe

/-- Rules without a cycle. -/
structure Makefile (τ : Type) where
  rule : τ → Option (Rule τ)
  rank : τ → Nat
  rank_lt : ∀ t r, rule t = some r → ∀ p ∈ r.prereqs, rank p < rank t

def Makefile.prereqs (m : Makefile τ) (t : τ) : Option (List τ) := (m.rule t).map Rule.prereqs

inductive Event (τ : Type) where
  /-- The recipe of `t` starts. -/
  | started (t : τ)
  | removed (t : τ)
  | touched (t : τ)
  | changed (t : τ)
  /-- All targets are removed. -/
  | cleaned

def Command.events (t : τ) : Command → List (Event τ)
  | .rm => [.removed t]
  | .work => []
  | .touch => [.touched t]

section Log
variable (m : Makefile τ)

/-- What an event is about. -/
def Event.Concerns (e : Event τ) (t : τ) : Prop :=
  match e with
  | .started u | .removed u | .touched u | .changed u => u = t
  | .cleaned => m.prereqs t ≠ none

variable [DecidableEq τ]

/-- The time of a file, of the log with the last event first. -/
def time : List (Event τ) → τ → Option Nat
  | [], t => if m.prereqs t = none then some 0 else none
  | .started _ :: log, t => time log t
  | .removed u :: log, t => if u = t then none else time log t
  | .touched u :: log, t | .changed u :: log, t =>
    if u = t then some (log.length + 1) else time log t
  | .cleaned :: log, t => if m.prereqs t = none then time log t else none

/-- Missing, or older than a prerequisite. -/
def OutOfDate (log : List (Event τ)) (t : τ) (ps : List τ) : Prop :=
  ∀ k, time m log t = some k → ∃ p ∈ ps, ∃ k', time m log p = some k' ∧ k < k'

/-- There, and no older than what it needs, down to the sources. -/
inductive UpToDate (log : List (Event τ)) : τ → Prop where
  | source {t : τ} (hsource : m.prereqs t = none) : UpToDate log t
  | target {t : τ} {ps : List τ} {k : Nat} (hrule : m.prereqs t = some ps)
      (htime : time m log t = some k) (hps : ∀ p ∈ ps, UpToDate log p)
      (hle : ∀ p ∈ ps, ∀ k', time m log p = some k' → k' ≤ k) : UpToDate log t

/-- From its start to its end and on, what happened to the target of a recipe is the recipe's own
    removal of it, and nothing happened to its prerequisites. -/
def Undisturbed (t : τ) (ps : List τ) (during : List (Event τ)) : Prop :=
  ∀ e ∈ during, (e.Concerns m t → e = .removed t) ∧ ∀ p ∈ ps, ¬ e.Concerns m p

/-- The last that happened to `t` is that its recipe ran from start to end, and nothing happened to
    its prerequisites from the start on; they had been built so before. -/
inductive Built : List (Event τ) → τ → Prop where
  | source {log : List (Event τ)} {t : τ} (hsource : m.prereqs t = none) : Built log t
  | target {t : τ} {ps : List τ} {after during before : List (Event τ)}
      (hrule : m.prereqs t = some ps)
      (hafter : ∀ e ∈ after, ¬ e.Concerns m t ∧ ∀ p ∈ ps, ¬ e.Concerns m p)
      (hduring : Undisturbed m t ps during) (hps : ∀ p ∈ ps, Built before p) :
      Built (after ++ .touched t :: (during ++ .started t :: before)) t

/-- `t` needs `u`. -/
def Needs : τ → τ → Prop := Relation.ReflTransGen fun t p => ∃ ps, m.prereqs t = some ps ∧ p ∈ ps

end Log

/-! Runs. -/

structure State (τ : Type) where
  log : List (Event τ)
  done : Finset τ
  /-- What is left of the recipes that run. -/
  running : τ → Option (List Command)
  failed : Bool

/-- A run that begins. -/
def State.fresh (log : List (Event τ)) : State τ := ⟨log, ∅, fun _ => none, false⟩

section Runs
variable [DecidableEq τ] (m : Makefile τ)

inductive Step : State τ → State τ → Prop where
  | source {s : State τ} {t : τ} (hsource : m.prereqs t = none) (hndone : t ∉ s.done) :
      Step s { s with done := insert t s.done }
  | skip {s : State τ} {t : τ} {r : Rule τ} (hrule : m.rule t = some r)
      (hps : ∀ p ∈ r.prereqs, p ∈ s.done) (hidle : s.running t = none) (hndone : t ∉ s.done)
      (hfresh : ¬ OutOfDate m s.log t r.prereqs) : Step s { s with done := insert t s.done }
  | start {s : State τ} {t : τ} {r : Rule τ} (hrule : m.rule t = some r)
      (hps : ∀ p ∈ r.prereqs, p ∈ s.done) (hidle : s.running t = none)
      (hout : OutOfDate m s.log t r.prereqs) (hgoes : s.failed = false) :
      Step s { s with log := .started t :: s.log,
                      running := Function.update s.running t (some r.recipe) }
  | line {s : State τ} {t : τ} {c c' : Command} {lines : List Command}
      (hruns : s.running t = some (c :: c' :: lines)) :
      Step s { s with log := c.events t ++ s.log,
                      running := Function.update s.running t (some (c' :: lines)) }
  | last {s : State τ} {t : τ} {c : Command} (hruns : s.running t = some [c]) :
      Step s { s with log := c.events t ++ s.log, running := Function.update s.running t none,
                      done := insert t s.done }
  | fail {s : State τ} {t : τ} {lines : List Command} (hruns : s.running t = some lines) :
      Step s { s with running := Function.update s.running t none, failed := true }

/-- A step of a run that was asked for `want`. -/
def StepFor (want : τ → Prop) (s s' : State τ) : Prop :=
  Step m s s' ∧ ∀ u, ¬ want u → (u ∈ s'.done ↔ u ∈ s.done) ∧ s'.running u = s.running u

inductive Happens : State τ → State τ → Prop where
  | step {s s' : State τ} (h : Step m s s') : Happens s s'
  /-- The run is over, or is killed, and another begins. -/
  | anew {s : State τ} : Happens s (.fresh s.log)
  | change {s : State τ} {t : τ} (hsource : m.prereqs t = none) :
      Happens s (.fresh (.changed t :: s.log))
  | clean {s : State τ} : Happens s (.fresh (.cleaned :: s.log))

/-- What any number of runs come to. -/
def Reachable : State τ → Prop := Relation.ReflTransGen (Happens m) (.fresh [])

end Runs

/-! Times. -/

theorem prereqs_of_rule {m : Makefile τ} {t : τ} {r : Rule τ} (h : m.rule t = some r) :
    m.prereqs t = some r.prereqs := by
  rw [Makefile.prereqs, h, Option.map_some]

theorem ne_of_mem_prereqs {m : Makefile τ} {t p : τ} {r : Rule τ} (hrule : m.rule t = some r)
    (hp : p ∈ r.prereqs) : t ≠ p := by
  rintro rfl
  exact Nat.lt_irrefl _ (m.rank_lt t r hrule t hp)

section Times
variable [DecidableEq τ] {m : Makefile τ} {log : List (Event τ)} {t : τ}

theorem time_cons {e : Event τ} (h : ¬ e.Concerns m t) : time m (e :: log) t = time m log t := by
  cases e with
  | started u => rfl
  | removed u => simp [time, show ¬ u = t from h]
  | touched u => simp [time, show ¬ u = t from h]
  | changed u => simp [time, show ¬ u = t from h]
  | cleaned => simp [time, not_not.mp h]

/-- The time of a file stays, or is that of the event. -/
theorem time_cons_eq_some {e : Event τ} {k : Nat} (h : time m (e :: log) t = some k) :
    time m log t = some k ∨ k = log.length + 1 := by
  cases e with
  | started u => exact Or.inl h
  | removed u =>
    rw [time] at h
    split at h
    · cases h
    · exact Or.inl h
  | touched u | changed u =>
    rw [time] at h
    split at h
    · exact Or.inr (Option.some.inj h).symm
    · exact Or.inl h
  | cleaned =>
    rw [time] at h
    split at h
    · exact Or.inl h
    · cases h

theorem time_le {k : Nat} (h : time m log t = some k) : k ≤ log.length := by
  induction log generalizing k with
  | nil => simp_all [time]
  | cons e log ih =>
    rw [List.length_cons]
    rcases time_cons_eq_some h with h | rfl
    · exact Nat.le_succ_of_le (ih h)
    · exact Nat.le_refl _

theorem time_removed : time m (.removed t :: log) t = none := if_pos rfl

theorem time_touched : time m (.touched t :: log) t = some (log.length + 1) := if_pos rfl

theorem time_changed : time m (.changed t :: log) t = some (log.length + 1) := if_pos rfl

/-- The time of a source is that of its last change. -/
theorem time_source (h : m.prereqs t = none) (hlog : ∀ e ∈ log, e.Concerns m t → e = .changed t) :
    (time m log t = some 0 ∧ ∀ e ∈ log, ¬ e.Concerns m t) ∨
      ∃ after before, log = after ++ .changed t :: before ∧ (∀ e ∈ after, ¬ e.Concerns m t) ∧
        time m log t = some (before.length + 1) := by
  induction log with
  | nil => exact Or.inl ⟨if_pos h, by simp⟩
  | cons e log ih =>
    obtain ⟨he, hlog⟩ := List.forall_mem_cons.mp hlog
    by_cases hconcerns : e.Concerns m t
    · obtain rfl := he hconcerns
      exact Or.inr ⟨[], log, rfl, by simp, time_changed⟩
    · rw [time_cons hconcerns]
      rcases ih hlog with ⟨htime, hnone⟩ | ⟨after, before, rfl, hafter, htime⟩
      · exact Or.inl ⟨htime, List.forall_mem_cons.mpr ⟨hconcerns, hnone⟩⟩
      · exact Or.inr ⟨e :: after, before, rfl, List.forall_mem_cons.mpr ⟨hconcerns, hafter⟩, htime⟩

end Times

/-! What is up to date. -/

section UpToDate
variable [DecidableEq τ] {m : Makefile τ} {log log' : List (Event τ)} {t u : τ}

theorem UpToDate.not_outOfDate {ps : List τ} (h : UpToDate m log t)
    (hrule : m.prereqs t = some ps) : ¬ OutOfDate m log t ps := by
  intro hout
  cases h with
  | source hsource => simp [hsource] at hrule
  | target hrule' htime _ hle =>
    obtain rfl := Option.some.inj (hrule'.symm.trans hrule)
    obtain ⟨p, hp, k', hk', hlt⟩ := hout _ htime
    exact absurd (hle p hp k' hk') (Nat.not_le.mpr hlt)

/-- Up to date is what only events that concern something needed can end. -/
theorem UpToDate.mono (h : UpToDate m log t)
    (hsame : ∀ u, Needs m t u → UpToDate m log u → time m log' u = time m log u) :
    UpToDate m log' t := by
  induction h with
  | source hsource => exact .source hsource
  | @target t ps k hrule htime hps hle ih =>
    have hneeds (p : τ) (hp : p ∈ ps) : Needs m t p := .single ⟨ps, hrule, hp⟩
    refine .target hrule ((hsame t .refl (.target hrule htime hps hle)).trans htime) ?_ ?_
    · intro p hp
      apply ih p hp
      exact fun u hu => hsame u ((hneeds p hp).trans hu)
    · intro p hp k' hk'
      rw [hsame p (hneeds p hp) (hps p hp)] at hk'
      exact hle p hp k' hk'

theorem UpToDate.needs (h : UpToDate m log t) (hneeds : Needs m t u) : UpToDate m log u := by
  induction hneeds with
  | refl => exact h
  | tail _ hstep ih =>
    obtain ⟨ps, hrule, hp⟩ := hstep
    cases ih with
    | source hsource => simp [hsource] at hrule
    | target hrule' _ hps _ =>
      obtain rfl := Option.some.inj (hrule'.symm.trans hrule)
      exact hps _ hp

/-- An event for a target that is out of date leaves the others up to date. -/
theorem UpToDate.cons {ps : List τ} (h : UpToDate m log u) (hrule : m.prereqs t = some ps)
    (hout : OutOfDate m log t ps) {e : Event τ} (he : ∀ v, e.Concerns m v → v = t) :
    UpToDate m (e :: log) u := by
  refine h.mono fun v _ hv => time_cons fun hconcerns => ?_
  obtain rfl := he v hconcerns
  exact hv.not_outOfDate hrule hout

end UpToDate

/-! The invariant. -/

section Invariant
variable [DecidableEq τ] (m : Makefile τ)

/-- Older than a prerequisite, or than one that is to be made. -/
def Stale (log : List (Event τ)) (ps : List τ) (k : Nat) : Prop :=
  ∃ p ∈ ps, ∀ k', time m log p = some k' → k < k'

/-- Made at `k`, by the last start of the recipe. -/
def Made (log : List (Event τ)) (t : τ) (ps : List τ) (k : Nat) : Prop :=
  ∃ after during before, log = after ++ .touched t :: (during ++ .started t :: before) ∧
    (∀ e ∈ after, ¬ e.Concerns m t) ∧ Undisturbed m t ps during ∧
    k = (during ++ .started t :: before).length + 1

/-- The recipe is running, and its prerequisites are as it found them. -/
structure Runs (s : State τ) (t : τ) (ps : List τ) : Prop where
  done : ∀ p ∈ ps, p ∈ s.done
  out : OutOfDate m s.log t ps
  begun : ∃ during before, s.log = during ++ .started t :: before ∧ Undisturbed m t ps during

structure Inv (s : State τ) : Prop where
  sources : ∀ e ∈ s.log, ∀ t, m.prereqs t = none → e.Concerns m t → e = .changed t
  there : ∀ t ps k, m.prereqs t = some ps → time m s.log t = some k →
    Stale m s.log ps k ∨ Made m s.log t ps k
  runs : ∀ t lines, s.running t = some lines →
    ToTouch lines ∧ ∃ ps, m.prereqs t = some ps ∧ Runs m s t ps
  done : ∀ t ∈ s.done, UpToDate m s.log t

variable {m}

theorem Stale.cons {log : List (Event τ)} {ps : List τ} {k : Nat} (h : Stale m log ps k)
    (hk : k ≤ log.length) (e : Event τ) : Stale m (e :: log) ps k := by
  obtain ⟨p, hp, hlt⟩ := h
  refine ⟨p, hp, fun k' hk' => ?_⟩
  rcases time_cons_eq_some hk' with hsame | hnew
  · exact hlt k' hsame
  · omega

omit [DecidableEq τ] in
theorem Made.cons {log : List (Event τ)} {t : τ} {ps : List τ} {k : Nat} {e : Event τ}
    (h : Made m log t ps k) (he : ¬ e.Concerns m t) : Made m (e :: log) t ps k := by
  obtain ⟨after, during, before, rfl, hafter, hduring, hk⟩ := h
  refine ⟨e :: after, during, before, rfl, ?_, hduring, hk⟩
  exact List.forall_mem_cons.mpr ⟨he, hafter⟩

/-- An event keeps what holds of a target that it does not concern. -/
theorem there_cons {log : List (Event τ)} {t : τ} {ps : List τ} {k : Nat} {e : Event τ}
    (h : ∀ k, time m log t = some k → Stale m log ps k ∨ Made m log t ps k)
    (he : ¬ e.Concerns m t) (htime : time m (e :: log) t = some k) :
    Stale m (e :: log) ps k ∨ Made m (e :: log) t ps k := by
  rw [time_cons he] at htime
  rcases h k htime with hstale | hmade
  · exact Or.inl (hstale.cons (time_le htime) e)
  · exact Or.inr (hmade.cons he)

theorem OutOfDate.cons {log : List (Event τ)} {t : τ} {ps : List τ} {e : Event τ}
    (h : OutOfDate m log t ps) (ht : ∀ k, time m (e :: log) t = some k → time m log t = some k)
    (hps : ∀ p ∈ ps, ¬ e.Concerns m p) : OutOfDate m (e :: log) t ps := by
  intro k hk
  obtain ⟨p, hp, k', hk', hlt⟩ := h k (ht k hk)
  exact ⟨p, hp, k', by rw [time_cons (hps p hp), hk'], hlt⟩

theorem Runs.cons {s s' : State τ} {t : τ} {ps : List τ} {e : Event τ} (h : Runs m s t ps)
    (hlog : s'.log = e :: s.log) (hdone : s.done ⊆ s'.done)
    (ht : e.Concerns m t → e = .removed t) (hps : ∀ p ∈ ps, ¬ e.Concerns m p) :
    Runs m s' t ps := by
  refine ⟨fun p hp => hdone (h.done p hp), hlog ▸ h.out.cons (fun k hk => ?_) hps, ?_⟩
  · by_cases hconcerns : e.Concerns m t
    · rw [ht hconcerns, time_removed] at hk
      cases hk
    · rwa [time_cons hconcerns] at hk
  · obtain ⟨during, before, hbegun, hduring⟩ := h.begun
    refine ⟨e :: during, before, by rw [hlog, hbegun, List.cons_append], ?_⟩
    exact List.forall_mem_cons.mpr ⟨⟨ht, hps⟩, hduring⟩

theorem Runs.of_log_eq {s s' : State τ} {t : τ} {ps : List τ} (h : Runs m s t ps)
    (hlog : s'.log = s.log) (hdone : s.done ⊆ s'.done) : Runs m s' t ps :=
  ⟨fun p hp => hdone (h.done p hp), hlog ▸ h.out, hlog ▸ h.begun⟩

theorem toTouch_cons {c c' : Command} {lines : List Command} (h : ToTouch (c :: c' :: lines)) :
    c ≠ .touch ∧ ToTouch (c' :: lines) := by
  obtain ⟨init, heq, hinit⟩ := h
  cases init with
  | nil => cases heq
  | cons d init =>
    obtain ⟨rfl, htail⟩ := List.cons.inj heq
    rw [List.mem_cons, not_or] at hinit
    exact ⟨Ne.symm hinit.1, init, htail, hinit.2⟩

theorem toTouch_singleton {c : Command} (h : ToTouch [c]) : c = .touch := by
  obtain ⟨init, heq, hinit⟩ := h
  cases init with
  | nil => exact (List.cons.inj heq).1
  | cons d init =>
    obtain ⟨-, htail⟩ := List.cons.inj heq
    simp at htail

theorem update_eq_some {running : τ → Option (List Command)} {v : Option (List Command)} {t u : τ}
    {lines : List Command} (h : Function.update running t v u = some lines) :
    (u = t ∧ v = some lines) ∨ (u ≠ t ∧ running u = some lines) := by
  by_cases hut : u = t
  · subst hut
    rw [Function.update_self] at h
    exact Or.inl ⟨rfl, h⟩
  · rw [Function.update_of_ne hut] at h
    exact Or.inr ⟨hut, h⟩

/-! One step. -/

section Steps
variable {s s' : State τ}

theorem Inv.not_done_of_running (h : Inv m s) {t : τ} {lines : List Command}
    (hruns : s.running t = some lines) : t ∉ s.done := by
  intro hdone
  obtain ⟨-, ps, hrule, hrun⟩ := h.runs t lines hruns
  exact (h.done t hdone).not_outOfDate hrule hrun.out

/-- A target that is found up to date. -/
theorem Inv.insert_done (h : Inv m s) {t : τ} (hup : UpToDate m s.log t) :
    Inv m { s with done := insert t s.done } := by
  refine ⟨h.sources, h.there, ?_, ?_⟩
  · intro u lines hu
    obtain ⟨hends, ps, hrule, hrun⟩ := h.runs u lines hu
    exact ⟨hends, ps, hrule, hrun.of_log_eq rfl (Finset.subset_insert _ _)⟩
  · intro u hu
    rcases Finset.mem_insert.mp hu with rfl | hu
    · exact hup
    · exact h.done u hu

theorem upToDate_of_not_outOfDate {log : List (Event τ)} {t : τ} {ps : List τ}
    (hrule : m.prereqs t = some ps) (hps : ∀ p ∈ ps, UpToDate m log p)
    (hfresh : ¬ OutOfDate m log t ps) : UpToDate m log t := by
  simp only [OutOfDate, not_forall, not_exists, not_and, Nat.not_lt] at hfresh
  obtain ⟨k, htime, hle⟩ := hfresh
  exact .target hrule htime hps hle

/-- An event about a target with a rule is about no source. -/
theorem Inv.sources_cons (h : Inv m s) {t : τ} {ps : List τ} (hrule : m.prereqs t = some ps)
    {e : Event τ} (he : ∀ u, e.Concerns m u → u = t) :
    ∀ e' ∈ e :: s.log, ∀ u, m.prereqs u = none → e'.Concerns m u → e' = .changed u := by
  refine List.forall_mem_cons.mpr ⟨?_, h.sources⟩
  intro u hu hconcerns
  obtain rfl := he u hconcerns
  simp [hrule] at hu

theorem Inv.start (h : Inv m s) {t : τ} {r : Rule τ} (hr : m.rule t = some r)
    (hps : ∀ p ∈ r.prereqs, p ∈ s.done) (hout : OutOfDate m s.log t r.prereqs) :
    Inv m { s with log := .started t :: s.log,
                   running := Function.update s.running t (some r.recipe) } := by
  have hrule := prereqs_of_rule hr
  have hndone : t ∉ s.done := fun hdone => (h.done t hdone).not_outOfDate hrule hout
  have hprereq (p : τ) (hp : p ∈ r.prereqs) : ¬ (Event.started t).Concerns m p :=
    ne_of_mem_prereqs hr hp
  refine ⟨h.sources_cons hrule fun u hu => Eq.symm hu, ?_, ?_, ?_⟩
  · intro u psu k hu htime
    by_cases htu : t = u
    · -- a target that is there is older than a prerequisite
      subst htu
      obtain rfl := Option.some.inj (hrule.symm.trans hu)
      obtain ⟨p, hp, k', hk', hlt⟩ := hout k htime
      refine Or.inl ⟨p, hp, fun j hj => ?_⟩
      rw [time_cons (hprereq p hp), hk'] at hj
      exact Option.some.inj hj ▸ hlt
    · exact there_cons (fun k hk => h.there u psu k hu hk) htu htime
  · intro u lines hu
    rcases update_eq_some hu with ⟨rfl, hlines⟩ | ⟨hut, hu⟩
    · obtain rfl := Option.some.inj hlines
      refine ⟨r.ends, _, hrule, hps, hout.cons (fun k hk => hk) hprereq, [], s.log, rfl, ?_⟩
      simp [Undisturbed]
    · obtain ⟨hends, psu, hrule', hrun⟩ := h.runs u lines hu
      refine ⟨hends, psu, hrule', hrun.cons rfl (Finset.Subset.refl _) ?_ ?_⟩
      · exact fun hconcerns => absurd (Eq.symm hconcerns) hut
      · rintro p hp rfl
        exact hndone (hrun.done _ hp)
  · intro u hu
    exact (h.done u hu).cons hrule hout fun v hv => Eq.symm hv

theorem Inv.work (h : Inv m s) {t : τ} {lines lines' : List Command}
    (hruns : s.running t = some lines) (hends : ToTouch lines') :
    Inv m { s with running := Function.update s.running t (some lines') } := by
  refine ⟨h.sources, h.there, ?_, h.done⟩
  intro u lines'' hu
  rcases update_eq_some hu with ⟨rfl, hlines⟩ | ⟨-, hu⟩
  · obtain rfl := Option.some.inj hlines
    obtain ⟨-, ps, hrule, hrun⟩ := h.runs u lines hruns
    exact ⟨hends, ps, hrule, hrun.of_log_eq rfl (Finset.Subset.refl _)⟩
  · obtain ⟨hends', ps, hrule, hrun⟩ := h.runs u lines'' hu
    exact ⟨hends', ps, hrule, hrun.of_log_eq rfl (Finset.Subset.refl _)⟩

theorem Inv.removes (h : Inv m s) {t : τ} {lines : List Command}
    (hruns : s.running t = some lines) :
    Inv m { s with log := .removed t :: s.log } := by
  obtain ⟨-, ps, hrule, hrun⟩ := h.runs t lines hruns
  have hndone := h.not_done_of_running hruns
  refine ⟨h.sources_cons hrule fun u hu => Eq.symm hu, ?_, ?_, ?_⟩
  · intro u psu k hu htime
    by_cases htu : t = u
    · subst htu
      rw [time_removed] at htime
      cases htime
    · exact there_cons (fun k hk => h.there u psu k hu hk) htu htime
  · intro u lines' hu
    obtain ⟨hends, psu, hrule', hrun'⟩ := h.runs u lines' hu
    refine ⟨hends, psu, hrule', hrun'.cons rfl (Finset.Subset.refl _) ?_ ?_⟩
    · rintro rfl
      rfl
    · rintro p hp rfl
      exact hndone (hrun'.done _ hp)
  · intro u hu
    exact (h.done u hu).cons hrule hrun.out fun v hv => Eq.symm hv

theorem Inv.touches (h : Inv m s) {t : τ} {lines : List Command}
    (hruns : s.running t = some lines) :
    Inv m { s with log := .touched t :: s.log, running := Function.update s.running t none,
                   done := insert t s.done } := by
  obtain ⟨-, ps, hrule, hrun⟩ := h.runs t lines hruns
  have hndone := h.not_done_of_running hruns
  have hkeep (u : τ) (hu : UpToDate m s.log u) : UpToDate m (.touched t :: s.log) u :=
    hu.cons hrule hrun.out fun v hv => Eq.symm hv
  refine ⟨h.sources_cons hrule fun u hu => Eq.symm hu, ?_, ?_, ?_⟩
  · intro u psu k hu htime
    by_cases htu : t = u
    · subst htu
      obtain rfl := Option.some.inj (hrule.symm.trans hu)
      obtain ⟨during, before, hbegun, hduring⟩ := hrun.begun
      refine Or.inr ⟨[], during, before, by rw [hbegun, List.nil_append], by simp, hduring, ?_⟩
      rw [time_touched, hbegun] at htime
      exact (Option.some.inj htime).symm
    · exact there_cons (fun k hk => h.there u psu k hu hk) htu htime
  · intro u lines' hu
    rcases update_eq_some hu with ⟨-, hlines⟩ | ⟨hut, hu⟩
    · cases hlines
    · obtain ⟨hends, psu, hrule', hrun'⟩ := h.runs u lines' hu
      refine ⟨hends, psu, hrule', hrun'.cons rfl (Finset.subset_insert _ _) ?_ ?_⟩
      · exact fun hconcerns => absurd (Eq.symm hconcerns) hut
      · rintro p hp rfl
        exact hndone (hrun'.done _ hp)
  · intro u hu
    rcases Finset.mem_insert.mp hu with rfl | hu
    · refine .target hrule time_touched (fun p hp => hkeep p (h.done p (hrun.done p hp))) ?_
      exact fun p hp k' hk' => time_le hk'
    · exact hkeep u (h.done u hu)

theorem Inv.fail (h : Inv m s) (t : τ) :
    Inv m { s with running := Function.update s.running t none, failed := true } := by
  refine ⟨h.sources, h.there, fun u lines hu => ?_, h.done⟩
  rcases update_eq_some hu with ⟨-, hlines⟩ | ⟨-, hu⟩
  · cases hlines
  · obtain ⟨hends, ps, hrule, hrun⟩ := h.runs u lines hu
    exact ⟨hends, ps, hrule, hrun.of_log_eq rfl (Finset.Subset.refl _)⟩

theorem Inv.step (h : Inv m s) (hstep : Step m s s') : Inv m s' := by
  cases hstep with
  | source hsource _ => exact h.insert_done (.source hsource)
  | skip hrule hps _ _ hfresh =>
    refine h.insert_done (upToDate_of_not_outOfDate (prereqs_of_rule hrule) ?_ hfresh)
    exact fun p hp => h.done p (hps p hp)
  | start hrule hps _ hout _ => exact h.start hrule hps hout
  | @line t c c' lines hruns =>
    obtain ⟨hne, hends⟩ := toTouch_cons (h.runs t _ hruns).1
    cases c with
    | rm =>
      have hremoved := h.removes hruns
      exact hremoved.work hruns hends
    | work => exact h.work hruns hends
    | touch => exact absurd rfl hne
  | @last t c hruns =>
    obtain rfl := toTouch_singleton (h.runs t _ hruns).1
    exact h.touches hruns
  | fail hruns => exact h.fail _

theorem Inv.fresh (h : Inv m s) : Inv m (.fresh s.log) :=
  ⟨h.sources, h.there, by simp [State.fresh], by simp [State.fresh]⟩

theorem Inv.change (h : Inv m s) {t : τ} (hsource : m.prereqs t = none) :
    Inv m (.fresh (.changed t :: s.log)) := by
  refine ⟨?_, ?_, by simp [State.fresh], by simp [State.fresh]⟩
  · refine List.forall_mem_cons.mpr ⟨?_, h.sources⟩
    intro u _ hconcerns
    obtain rfl : t = u := hconcerns
    rfl
  · intro u psu k hu htime
    refine there_cons (fun k hk => h.there u psu k hu hk) ?_ htime
    rintro rfl
    simp [hsource] at hu

theorem Inv.clean (h : Inv m s) : Inv m (.fresh (.cleaned :: s.log)) := by
  refine ⟨?_, ?_, by simp [State.fresh], by simp [State.fresh]⟩
  · refine List.forall_mem_cons.mpr ⟨?_, h.sources⟩
    intro u hu hconcerns
    exact absurd hu hconcerns
  · intro u psu k hu htime
    simp [State.fresh, time, hu] at htime

theorem Inv.happens (h : Inv m s) (hhappens : Happens m s s') : Inv m s' := by
  cases hhappens with
  | step hstep => exact h.step hstep
  | anew => exact h.fresh
  | change hsource => exact h.change hsource
  | clean => exact h.clean

theorem inv_of_reachable (h : Reachable m s) : Inv m s := by
  induction h with
  | refl =>
    refine ⟨by simp [State.fresh], ?_, by simp [State.fresh], by simp [State.fresh]⟩
    intro t ps k hrule htime
    simp [State.fresh, time, hrule] at htime
  | tail _ hhappens ih => exact ih.happens hhappens

end Steps
end Invariant

end Make
