import Mathlib.Algebra.Order.BigOperators.Group.Finset
import Mathlib.Data.Fintype.Basic
import RiscvToolchain.Semantics.Make

/- What follows from the invariant of `make` about its runs.

   A target that a run is done with was made from what it needs, and that from what it needs in
   turn (`built_of_done`). No recipe runs while one it depends on does
   (`not_running_of_needs`). A run after changes of sources starts the recipes that need them and
   no others (`started_iff`). And a run ends (`acc_step`), with what it was asked for unless a
   recipe failed (`over_of_stuck`). -/
namespace Make
variable {τ : Type}

/-! What a run that is over has left, and what it never does. -/

section Results
variable [DecidableEq τ] {m : Makefile τ} {s s' : State τ} {t u : τ} {ps : List τ}

theorem made_of_upToDate (h : Inv m s) (hrule : m.prereqs t = some ps) (hup : UpToDate m s.log t) :
    ∃ k, time m s.log t = some k ∧ Made m s.log t ps k ∧
      ∀ p ∈ ps, UpToDate m s.log p ∧ ∀ k', time m s.log p = some k' → k' ≤ k := by
  cases hup with
  | source hsource => simp [hsource] at hrule
  | @target _ ps' k hrule' htime hps hle =>
    obtain rfl := Option.some.inj (hrule'.symm.trans hrule)
    refine ⟨k, htime, ?_, fun p hp => ⟨hps p hp, hle p hp⟩⟩
    rcases h.there t ps' k hrule' htime with ⟨p, hp, hlt⟩ | hmade
    · -- a prerequisite that is there is not newer
      have hthere : ∃ k', time m s.log p = some k' := by
        cases hps p hp with
        | source hsource =>
          rcases time_source hsource (fun e he => h.sources e he p hsource) with
            ⟨htime, -⟩ | ⟨_, _, -, -, htime⟩
          · exact ⟨_, htime⟩
          · exact ⟨_, htime⟩
        | target _ htime _ _ => exact ⟨_, htime⟩
      obtain ⟨k', hk'⟩ := hthere
      exact absurd (hle p hp k' hk') (Nat.not_le.mpr (hlt k' hk'))
    · exact hmade

/-- The last that happened to a file that is up to date is what it has its time from. -/
theorem last_of_upToDate (h : Inv m s) (hup : UpToDate m s.log t) :
    ∃ after rest, s.log = after ++ rest ∧ (∀ e ∈ after, ¬ e.Concerns m t) ∧
      time m s.log t = some rest.length := by
  by_cases hsource : m.prereqs t = none
  · rcases time_source hsource (fun e he => h.sources e he t hsource) with
      ⟨htime, hnone⟩ | ⟨after, before, hlog, hafter, htime⟩
    · exact ⟨s.log, [], by simp, hnone, htime⟩
    · exact ⟨after, .changed t :: before, hlog, hafter, htime⟩
  · obtain ⟨ps, hrule⟩ := Option.ne_none_iff_exists'.mp hsource
    obtain ⟨k, htime, ⟨after, during, before, hlog, hafter, -, rfl⟩, -⟩ :=
      made_of_upToDate h hrule hup
    exact ⟨after, _, hlog, hafter, htime⟩

/-- The last that happened to a target that is up to date, and its prerequisites since. -/
theorem last_run_of_upToDate (h : Inv m s) (hrule : m.prereqs t = some ps)
    (hup : UpToDate m s.log t) :
    ∃ after during before, s.log = after ++ .touched t :: (during ++ .started t :: before) ∧
      (∀ e ∈ after, ¬ e.Concerns m t ∧ ∀ p ∈ ps, ¬ e.Concerns m p) ∧ Undisturbed m t ps during := by
  obtain ⟨k, -, ⟨after, during, before, hlog, hafter, hduring, hk⟩, hps⟩ :=
    made_of_upToDate h hrule hup
  refine ⟨after, during, before, hlog, fun e he => ⟨hafter e he, fun p hp => ?_⟩, hduring⟩
  obtain ⟨hupp, hle⟩ := hps p hp
  obtain ⟨afterp, rest, hlogp, hafterp, htime⟩ := last_of_upToDate h hupp
  have hrest : rest.length ≤ k := hle _ htime
  have hlength : after.length ≤ afterp.length := by
    have hlen := congrArg List.length (hlog.symm.trans hlogp)
    simp only [List.length_append, List.length_cons] at hlen hk
    omega
  have hafter' : after <+: s.log := ⟨_, hlog.symm⟩
  have hafterp' : afterp <+: s.log := ⟨_, hlogp.symm⟩
  exact hafterp e ((List.prefix_of_prefix_length_le hafter' hafterp' hlength).subset he)

omit [DecidableEq τ] in
theorem not_mem_prereqs_self (hrule : m.prereqs t = some ps) : t ∉ ps := by
  intro ht
  obtain ⟨r, hr, rfl⟩ := Option.map_eq_some_iff.mp hrule
  exact ne_of_mem_prereqs hr ht rfl

omit [DecidableEq τ] in
theorem Built.of_cons {e : Event τ} {log : List (Event τ)} (h : Built m (e :: log) t)
    (he : ¬ e.Concerns m t) : Built m log t := by
  generalize hwhole : e :: log = whole at h
  cases h with
  | source hsource => exact .source hsource
  | @target _ _ after _ _ hrule hafter hduring hps =>
    cases after with
    | nil =>
      obtain ⟨rfl, -⟩ := List.cons.inj hwhole
      exact absurd rfl he
    | cons d after =>
      obtain ⟨-, rfl⟩ := List.cons.inj hwhole
      exact .target hrule (fun d hd => hafter d (List.mem_cons_of_mem _ hd)) hduring hps

omit [DecidableEq τ] in
theorem Built.of_append {new log : List (Event τ)} (h : Built m (new ++ log) t)
    (hnew : ∀ e ∈ new, ¬ e.Concerns m t) : Built m log t := by
  induction new with
  | nil => exact h
  | cons e new ih =>
    obtain ⟨he, hnew⟩ := List.forall_mem_cons.mp hnew
    exact ih (h.of_cons he) hnew

theorem built_of_upToDate (h : Inv m s) (hup : UpToDate m s.log t) : Built m s.log t := by
  induction hup with
  | source hsource => exact .source hsource
  | @target t ps k hrule htime hps hle ih =>
    obtain ⟨after, during, before, hlog, hafter, hduring⟩ :=
      last_run_of_upToDate h hrule (.target hrule htime hps hle)
    have hself := not_mem_prereqs_self hrule
    rw [hlog]
    refine .target hrule hafter hduring fun p hp => ?_
    have hpt : ¬ t = p := fun htp => hself (htp ▸ hp)
    have hbuilt := ih p hp
    rw [hlog] at hbuilt
    -- nothing concerned `p` since the recipe of `t` started
    have htouched := (hbuilt.of_append fun e he => (hafter e he).2 p hp).of_cons hpt
    exact (htouched.of_append fun e he => (hduring e he).2 p hp).of_cons hpt

/-- Where a run is over with `t`, all that `t` needs is built. -/
theorem built_of_done (h : Reachable m s) (hdone : t ∈ s.done) (hneeds : Needs m t u) :
    Built m s.log u :=
  have hinv := inv_of_reachable h
  built_of_upToDate hinv ((hinv.done t hdone).needs hneeds)

/-- No recipe runs while one runs that it depends on. -/
theorem not_running_of_needs (h : Reachable m s) {lines : List Command}
    (hruns : s.running t = some lines) (hrule : m.prereqs t = some ps) {p : τ} (hp : p ∈ ps)
    (hneeds : Needs m p u) : s.running u = none := by
  have hinv := inv_of_reachable h
  cases hu : s.running u with
  | none => rfl
  | some linesu =>
    obtain ⟨-, ps', hrule', hrun⟩ := hinv.runs t lines hruns
    obtain rfl := Option.some.inj (hrule'.symm.trans hrule)
    obtain ⟨-, psu, hruleu, hrunu⟩ := hinv.runs u linesu hu
    have hup := (hinv.done p (hrun.done p hp)).needs hneeds
    exact absurd hrunu.out (hup.not_outOfDate hruleu)

theorem Inv.steps (h : Inv m s) (hsteps : Relation.ReflTransGen (Step m) s s') : Inv m s' := by
  induction hsteps with
  | refl => exact h
  | tail _ hstep ih => exact ih.step hstep

/-- A step leaves what is up to date as it is. -/
theorem Inv.step_log (h : Inv m s) (hup : UpToDate m s.log t) (hstep : Step m s s') :
    UpToDate m s'.log t ∧ ∃ new, s'.log = new ++ s.log ∧ ∀ e ∈ new, ¬ e.Concerns m t := by
  have hcons {v : τ} {psv : List τ} (hrule : m.prereqs v = some psv)
      (hout : OutOfDate m s.log v psv) {e : Event τ} (he : ∀ w, e.Concerns m w → w = v) :
      UpToDate m (e :: s.log) t ∧
        ∃ new, e :: s.log = new ++ s.log ∧ ∀ e ∈ new, ¬ e.Concerns m t := by
    refine ⟨hup.cons hrule hout he, [e], rfl, ?_⟩
    intro e' he' hconcerns
    obtain rfl := List.mem_singleton.mp he'
    obtain rfl := he t hconcerns
    exact hup.not_outOfDate hrule hout
  cases hstep with
  | source _ _ => exact ⟨hup, [], rfl, by simp⟩
  | skip _ _ _ _ _ => exact ⟨hup, [], rfl, by simp⟩
  | fail _ => exact ⟨hup, [], rfl, by simp⟩
  | start hrule _ _ hout _ => exact hcons (prereqs_of_rule hrule) hout fun w hw => Eq.symm hw
  | @line v c c' lines hruns =>
    obtain ⟨-, ps, hrule, hrun⟩ := h.runs v _ hruns
    cases c with
    | work => exact ⟨hup, [], rfl, by simp⟩
    | rm | touch => exact hcons hrule hrun.out fun w hw => Eq.symm hw
  | @last v c hruns =>
    obtain ⟨-, ps, hrule, hrun⟩ := h.runs v _ hruns
    cases c with
    | work => exact ⟨hup, [], rfl, by simp⟩
    | rm | touch => exact hcons hrule hrun.out fun w hw => Eq.symm hw

theorem Inv.steps_log (h : Inv m s) (hup : UpToDate m s.log t)
    (hsteps : Relation.ReflTransGen (Step m) s s') :
    UpToDate m s'.log t ∧ ∃ new, s'.log = new ++ s.log ∧ ∀ e ∈ new, ¬ e.Concerns m t := by
  induction hsteps with
  | refl => exact ⟨hup, [], rfl, by simp⟩
  | tail hs hstep ih =>
    obtain ⟨hup₁, new₁, hlog₁, hnew₁⟩ := ih
    obtain ⟨hup₂, new₂, hlog₂, hnew₂⟩ := (h.steps hs).step_log hup₁ hstep
    refine ⟨hup₂, new₂ ++ new₁, by rw [hlog₂, hlog₁, List.append_assoc], ?_⟩
    exact List.forall_mem_append.mpr ⟨hnew₂, hnew₁⟩

/-! After changes. -/

theorem mem_of_append_cons_eq {α : Type} {a b c d : List α} {x y : α}
    (h : a ++ x :: b = c ++ y :: d) (hy : y ∉ a) (hne : x ≠ y) : x ∈ c := by
  induction a generalizing c with
  | nil =>
    cases c with
    | nil => exact absurd (List.cons.inj h).1 hne
    | cons z c => exact (List.cons.inj h).1 ▸ List.mem_cons_self
  | cons w a ih =>
    rw [List.mem_cons, not_or] at hy
    cases c with
    | nil => exact absurd (List.cons.inj h).1.symm hy.1
    | cons z c => exact List.mem_cons_of_mem _ (ih (List.cons.inj h).2 hy.2)

omit [DecidableEq τ] in
/-- What is built was started after the last that happened to a prerequisite. -/
theorem Built.started_mem {log new old : List (Event τ)} {e : Event τ} {p : τ}
    (h : Built m log t) (hrule : m.prereqs t = some ps) (hp : p ∈ ps)
    (hlog : log = new ++ e :: old) (he : e.Concerns m p) (hself : t ∉ ps) : .started t ∈ new := by
  cases h with
  | source hsource => simp [hsource] at hrule
  | @target _ _ after during before hrule' hafter hduring _ =>
    obtain rfl := Option.some.inj (hrule'.symm.trans hrule)
    have hpt : ¬ t = p := fun htp => hself (htp ▸ hp)
    have hsince : e ∉ after ++ .touched t :: during := by
      intro hmem
      rcases List.mem_append.mp hmem with hmem | hmem
      · exact (hafter e hmem).2 p hp he
      · rcases List.mem_cons.mp hmem with rfl | hmem
        · exact hpt he
        · exact (hduring e hmem).2 p hp he
    apply mem_of_append_cons_eq (a := after ++ .touched t :: during) (b := before) (d := old)
    · simpa using hlog
    · exact hsince
    · rintro rfl
      exact hpt he

theorem steps_append (hsteps : Relation.ReflTransGen (Step m) s s') :
    ∃ new, s'.log = new ++ s.log := by
  induction hsteps with
  | refl => exact ⟨[], rfl⟩
  | tail _ hstep ih =>
    obtain ⟨new, hnew⟩ := ih
    cases hstep with
    | source _ _ | skip _ _ _ _ _ | fail _ => exact ⟨new, hnew⟩
    | start _ _ _ _ _ => exact ⟨_ :: new, congrArg _ hnew⟩
    | @line t c _ _ _ | @last t c _ =>
      refine ⟨c.events t ++ new, ?_⟩
      rw [List.append_assoc, ← hnew]

theorem Inv.changes (h : Inv m s) {fs : List τ} (hfs : ∀ f ∈ fs, m.prereqs f = none) :
    Inv m (.fresh (fs.map .changed ++ s.log)) := by
  induction fs with
  | nil => exact h.fresh
  | cons f fs ih =>
    obtain ⟨hf, hfs⟩ := List.forall_mem_cons.mp hfs
    exact (ih hfs).change hf

theorem time_append {new log : List (Event τ)} (h : ∀ e ∈ new, ¬ e.Concerns m t) :
    time m (new ++ log) t = time m log t := by
  induction new with
  | nil => rfl
  | cons e new ih =>
    obtain ⟨he, hnew⟩ := List.forall_mem_cons.mp h
    exact (time_cons he).trans (ih hnew)

/-- After changes of sources, a run that is over with `t` has started the recipes of what `t` needs
    that need one of them, and has done nothing to the rest. -/
theorem started_iff {fs : List τ} (h : Reachable m s) (hdone : t ∈ s.done)
    (hfs : ∀ f ∈ fs, m.prereqs f = none)
    (hsteps : Relation.ReflTransGen (Step m) (.fresh (fs.map .changed ++ s.log)) s')
    (hdone' : t ∈ s'.done) {new : List (Event τ)}
    (hnew : s'.log = new ++ (fs.map .changed ++ s.log)) (htu : Needs m t u)
    (hrule : m.prereqs u ≠ none) :
    (.started u ∈ new ↔ ∃ f ∈ fs, Needs m u f) ∧
      ((∀ f ∈ fs, ¬ Needs m u f) → ∀ e ∈ new, ¬ e.Concerns m u) := by
  have hinv := inv_of_reachable h
  have hchanged : Inv m (.fresh (fs.map .changed ++ s.log)) := hinv.changes hfs
  have hstarted {f : τ} (hf : f ∈ fs) (u : τ) (huf : Needs m u f) :
      Needs m t u → u = f ∨ .started u ∈ new := by
    induction huf using Relation.ReflTransGen.head_induction_on with
    | refl => exact fun _ => Or.inl rfl
    | @head u p hstep hpf ih =>
      intro htu
      obtain ⟨ps, hrule, hp⟩ := hstep
      have hself := not_mem_prereqs_self hrule
      have hinv' := hchanged.steps hsteps
      have hbuilt := built_of_upToDate hinv' ((hinv'.done t hdone').needs htu)
      rcases ih (htu.tail ⟨ps, hrule, hp⟩) with rfl | hmem
      · -- `u` was started after the change of `p`, and among the changes nothing starts
        obtain ⟨fs₁, fs₂, rfl⟩ := List.append_of_mem hf
        have hlog : s'.log = (new ++ fs₁.map .changed) ++
            .changed p :: (fs₂.map .changed ++ s.log) := by simp [hnew]
        have hu := hbuilt.started_mem hrule hp hlog rfl hself
        simpa using Or.inr hu
      · obtain ⟨new₁, new₂, rfl⟩ := List.append_of_mem hmem
        have hlog : s'.log = new₁ ++ .started p :: (new₂ ++ (fs.map .changed ++ s.log)) := by
          simp [hnew]
        have hu := hbuilt.started_mem hrule hp hlog rfl hself
        exact Or.inr (List.mem_append_left _ hu)
  have hkept (huf : ∀ f ∈ fs, ¬ Needs m u f) : ∀ e ∈ new, ¬ e.Concerns m u := by
    have hup : UpToDate m (fs.map .changed ++ s.log) u := by
      apply ((hinv.done t hdone).needs htu).mono
      intro v huv _
      apply time_append
      intro e he hconcerns
      obtain ⟨f, hf, rfl⟩ := List.mem_map.mp he
      obtain rfl : f = v := hconcerns
      exact huf f hf huv
    obtain ⟨-, new', hnew', hnone⟩ := hchanged.steps_log hup hsteps
    obtain rfl := List.append_cancel_right (hnew.symm.trans hnew')
    exact hnone
  refine ⟨⟨fun hmem => ?_, fun ⟨f, hf, huf⟩ => ?_⟩, hkept⟩
  · by_contra hnone
    exact hkept (fun f hf huf => hnone ⟨f, hf, huf⟩) _ hmem rfl
  · rcases hstarted hf u huf htu with rfl | hmem
    · exact absurd (hfs u hf) hrule
    · exact hmem

end Results

/-! A run ends. -/

section Ends
variable [DecidableEq τ] {m : Makefile τ} {s s' : State τ}

/-- What a target still takes of a run. -/
def weight (m : Makefile τ) (s : State τ) (t : τ) : Nat :=
  if t ∈ s.done then 0
  else
    match s.running t with
    | some lines => lines.length + 1
    | none => if s.failed then 1 else ((m.rule t).elim 0 fun r => r.recipe.length) + 2

theorem weight_pos {t : τ} (h : t ∉ s.done) : 0 < weight m s t := by
  rw [weight, if_neg h]
  split
  · exact Nat.succ_pos _
  · split
    · exact Nat.one_pos
    · exact Nat.succ_pos _

theorem weight_of_running {t : τ} {lines : List Command} (h : t ∉ s.done)
    (hruns : s.running t = some lines) : weight m s t = lines.length + 1 := by
  simp [weight, h, hruns]

theorem weight_of_idle {t : τ} {r : Rule τ} (h : t ∉ s.done) (hruns : s.running t = none)
    (hgoes : s.failed = false) (hrule : m.rule t = some r) :
    weight m s t = r.recipe.length + 2 := by
  simp [weight, h, hruns, hgoes, hrule]

theorem weight_done (s : State τ) (t u : τ) :
    weight m { s with done := insert t s.done } u = if u = t then 0 else weight m s u := by
  by_cases hut : u = t <;> simp [weight, hut]

theorem weight_ends (s : State τ) (log : List (Event τ)) (t u : τ) :
    weight m { s with log, running := Function.update s.running t none,
                      done := insert t s.done } u = if u = t then 0 else weight m s u := by
  by_cases hut : u = t <;> simp [weight, hut]

theorem weight_runs {t : τ} (h : t ∉ s.done) (log : List (Event τ)) (lines : List Command) (u : τ) :
    weight m { s with log, running := Function.update s.running t (some lines) } u =
      if u = t then lines.length + 1 else weight m s u := by
  by_cases hut : u = t
  · subst hut
    simp [weight, h]
  · simp [weight, hut]

theorem weight_fails_le (s : State τ) {t u : τ} (h : u ≠ t) :
    weight m { s with running := Function.update s.running t none, failed := true } u ≤
      weight m s u := by
  simp only [weight, Function.update_of_ne h, if_true]
  by_cases hdone : u ∈ s.done
  · simp [hdone]
  · cases hruns : s.running u with
    | some lines => simp [hdone]
    | none =>
      simp only [if_neg hdone]
      split
      · exact Nat.le_refl _
      · omega

theorem weight_fails {t : τ} (h : t ∉ s.done) :
    weight m { s with running := Function.update s.running t none, failed := true } t = 1 := by
  simp [weight, h]

/-- A step that takes from one target alone. -/
theorem sum_lt_of_ite [Fintype τ] {f g : τ → Nat} {t : τ} {k : Nat}
    (hg : ∀ u, g u = if u = t then k else f u) (hk : k < f t) : ∑ u, g u < ∑ u, f u := by
  apply Finset.sum_lt_sum
  · intro u _
    rw [hg]
    split
    next hut => exact hut ▸ Nat.le_of_lt hk
    next => exact Nat.le_refl _
  · exact ⟨t, Finset.mem_univ t, by rwa [hg, if_pos rfl]⟩

theorem sum_weight_lt [Fintype τ] (h : Inv m s) (hstep : Step m s s') :
    ∑ t, weight m s' t < ∑ t, weight m s t := by
  cases hstep with
  | @source t hsource hndone =>
    exact sum_lt_of_ite (weight_done s t) (weight_pos hndone)
  | @skip t r hrule hps hidle hndone hfresh =>
    exact sum_lt_of_ite (weight_done s t) (weight_pos hndone)
  | @start t r hrule hps hidle hout hgoes =>
    have hndone : t ∉ s.done := fun hdone =>
      (h.done t hdone).not_outOfDate (prereqs_of_rule hrule) hout
    apply sum_lt_of_ite (weight_runs hndone _ r.recipe)
    rw [weight_of_idle hndone hidle hgoes hrule]
    exact Nat.lt_succ_self _
  | @line t c c' lines hruns =>
    have hndone := h.not_done_of_running hruns
    apply sum_lt_of_ite (weight_runs hndone _ (c' :: lines))
    rw [weight_of_running hndone hruns]
    exact Nat.lt_succ_self _
  | @last t c hruns =>
    exact sum_lt_of_ite (weight_ends s _ t) (weight_pos (h.not_done_of_running hruns))
  | @fail t lines hruns =>
    have hndone := h.not_done_of_running hruns
    obtain ⟨⟨init, rfl, -⟩, -⟩ := h.runs t lines hruns
    have hlt : 1 < weight m s t := by
      rw [weight_of_running hndone hruns]
      simp
    apply Finset.sum_lt_sum
    · intro u _
      by_cases hut : u = t
      · rw [hut, weight_fails hndone]
        exact Nat.le_of_lt hlt
      · exact weight_fails_le s hut
    · exact ⟨t, Finset.mem_univ t, by rwa [weight_fails hndone]⟩

/-- No run goes on without end. -/
theorem acc_step [Fintype τ] (h : Inv m s) : Acc (fun s' s => Step m s s') s := by
  induction hweight : ∑ t, weight m s t using Nat.strong_induction_on generalizing s with
  | _ n ih =>
    constructor
    intro s' hstep
    exact ih _ (hweight ▸ sum_weight_lt h hstep) (h.step hstep) rfl

variable {want : τ → Prop}

/-- A recipe that runs can go on. -/
theorem exists_stepFor_of_running (h : Inv m s) {t : τ} {lines : List Command} (hwant : want t)
    (hruns : s.running t = some lines) : ∃ s', StepFor m want s s' ∧ s'.failed = s.failed := by
  have hother (u : τ) (hu : ¬ want u) : u ≠ t := by
    rintro rfl
    exact hu hwant
  obtain ⟨init, rfl, -⟩ := (h.runs t lines hruns).1
  cases init with
  | nil =>
    refine ⟨_, ⟨.last hruns, fun u hu => ?_⟩, rfl⟩
    simp [hother u hu]
  | cons c init =>
    cases init with
    | nil =>
      refine ⟨_, ⟨.line hruns, fun u hu => ?_⟩, rfl⟩
      simp [hother u hu]
    | cons c' init =>
      refine ⟨_, ⟨.line hruns, fun u hu => ?_⟩, rfl⟩
      simp [hother u hu]

/-- A run that has not failed and waits for no recipe can go on while it is not done. -/
theorem exists_stepFor_of_idle (hclosed : ∀ t u, want t → Needs m t u → want u)
    (hidle : ∀ u, s.running u = none) (hgoes : s.failed = false) {t : τ} (hwant : want t)
    (hndone : t ∉ s.done) : ∃ s', StepFor m want s s' ∧ s'.failed = s.failed := by
  induction hrank : m.rank t using Nat.strong_induction_on generalizing t with
  | _ n ih =>
    have hother (u : τ) (hu : ¬ want u) : u ≠ t := by
      rintro rfl
      exact hu hwant
    cases hrule : m.rule t with
    | none =>
      have hsource : m.prereqs t = none := by rw [Makefile.prereqs, hrule, Option.map_none]
      refine ⟨_, ⟨.source hsource hndone, fun u hu => ?_⟩, rfl⟩
      simp [hother u hu]
    | some r =>
      by_cases hps : ∀ p ∈ r.prereqs, p ∈ s.done
      · by_cases hout : OutOfDate m s.log t r.prereqs
        · refine ⟨_, ⟨.start hrule hps (hidle t) hout hgoes, fun u hu => ?_⟩, rfl⟩
          simp [hother u hu]
        · refine ⟨_, ⟨.skip hrule hps (hidle t) hndone hout, fun u hu => ?_⟩, rfl⟩
          simp [hother u hu]
      · simp only [not_forall] at hps
        obtain ⟨p, hp, hpdone⟩ := hps
        have hneeds : Needs m t p := .single ⟨_, prereqs_of_rule hrule, hp⟩
        exact ih _ (hrank ▸ m.rank_lt t r hrule p hp) (hclosed t p hwant hneeds) hpdone rfl

/-- A run that was asked for `want` runs no other recipes. -/
theorem want_of_running {log : List (Event τ)}
    (hsteps : Relation.ReflTransGen (StepFor m want) (.fresh log) s) {t : τ}
    (hruns : s.running t ≠ none) : want t := by
  by_contra hwant
  have hidle : s.running t = none := by
    clear hruns
    induction hsteps with
    | refl => rfl
    | tail _ hstep ih => exact (hstep.2 t hwant).2.trans ih
  exact hruns hidle

theorem steps_of_stepsFor (hsteps : Relation.ReflTransGen (StepFor m want) s s') :
    Relation.ReflTransGen (Step m) s s' := by
  induction hsteps with
  | refl => exact .refl
  | tail _ hstep ih => exact ih.tail hstep.1

/-- A run that cannot go on waits for no recipe, and is done unless it has failed. -/
theorem over_of_stuck {log : List (Event τ)} (hclosed : ∀ t u, want t → Needs m t u → want u)
    (h : Inv m (.fresh log)) (hsteps : Relation.ReflTransGen (StepFor m want) (.fresh log) s)
    (hstuck : ∀ s', ¬ StepFor m want s s') :
    (∀ t, s.running t = none) ∧ (s.failed = false → ∀ t, want t → t ∈ s.done) := by
  have hinv := h.steps (steps_of_stepsFor hsteps)
  have hidle (t : τ) : s.running t = none := by
    by_contra hruns
    obtain ⟨lines, hlines⟩ := Option.ne_none_iff_exists'.mp hruns
    have hwant : want t := want_of_running hsteps hruns
    obtain ⟨s', hstep, -⟩ := exists_stepFor_of_running hinv hwant hlines
    exact hstuck s' hstep
  refine ⟨hidle, fun hgoes t hwant => ?_⟩
  by_contra hndone
  obtain ⟨s', hstep, -⟩ := exists_stepFor_of_idle hclosed hidle hgoes hwant hndone
  exact hstuck s' hstep

/-- A run that is done is over. -/
theorem stuck_of_done (h : Inv m s) (hidle : ∀ t, s.running t = none)
    (hdone : ∀ t, want t → t ∈ s.done) : ∀ s', ¬ StepFor m want s s' := by
  rintro s' ⟨hstep, hother⟩
  have hnew {t : τ} (hndone : t ∉ s.done) (hs' : t ∈ s'.done ∨ s'.running t ≠ none) : False := by
    have hwant : ¬ want t := fun hwant => hndone (hdone t hwant)
    rcases hs' with hs' | hs'
    · exact hndone ((hother t hwant).1.mp hs')
    · exact hs' ((hother t hwant).2.trans (hidle t))
  cases hstep with
  | source _ hndone => exact hnew hndone (Or.inl (Finset.mem_insert_self _ _))
  | skip _ _ _ hndone _ => exact hnew hndone (Or.inl (Finset.mem_insert_self _ _))
  | @start t r hrule _ _ hout _ =>
    have hndone : t ∉ s.done := fun hdone =>
      (h.done t hdone).not_outOfDate (prereqs_of_rule hrule) hout
    exact hnew hndone (Or.inr (by simp))
  | line hruns | last hruns | fail hruns =>
    rw [hidle] at hruns
    cases hruns

/-- A run can end with what it was asked for. -/
theorem exists_return [Fintype τ] {log : List (Event τ)}
    (hclosed : ∀ t u, want t → Needs m t u → want u) (h : Inv m (.fresh log)) :
    ∃ s, Relation.ReflTransGen (StepFor m want) (.fresh log) s ∧ s.failed = false ∧
      (∀ t, s.running t = none) ∧ ∀ t, want t → t ∈ s.done := by
  have hend (s : State τ) (hacc : Acc (fun s' s => Step m s s') s) :
      Relation.ReflTransGen (StepFor m want) (.fresh log) s → s.failed = false →
      ∃ s, Relation.ReflTransGen (StepFor m want) (.fresh log) s ∧ s.failed = false ∧
        (∀ t, s.running t = none) ∧ ∀ t, want t → t ∈ s.done := by
    induction hacc with
    | intro s _ ih =>
      intro hsteps hgoes
      have hinv := h.steps (steps_of_stepsFor hsteps)
      by_cases hidle : ∀ t, s.running t = none
      · by_cases hdone : ∀ t, want t → t ∈ s.done
        · exact ⟨s, hsteps, hgoes, hidle, hdone⟩
        · simp only [not_forall] at hdone
          obtain ⟨t, hwant, hndone⟩ := hdone
          obtain ⟨s', hstep, hfailed⟩ := exists_stepFor_of_idle hclosed hidle hgoes hwant hndone
          exact ih s' hstep.1 (hsteps.tail hstep) (hfailed.trans hgoes)
      · simp only [not_forall] at hidle
        obtain ⟨t, hruns⟩ := hidle
        obtain ⟨lines, hlines⟩ := Option.ne_none_iff_exists'.mp hruns
        have hwant : want t := want_of_running hsteps hruns
        obtain ⟨s', hstep, hfailed⟩ := exists_stepFor_of_running hinv hwant hlines
        exact ih s' hstep.1 (hsteps.tail hstep) (hfailed.trans hgoes)
  exact hend _ (acc_step h) .refl rfl

end Ends
end Make
