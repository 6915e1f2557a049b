import RiscvToolchain.Semantics.Shell

/- Stages that a later run passes over. A stage has a test for what an earlier run did,
   and a body; where the test holds the body does not run (`guarded`). The test is all
   that a run knows of those before it: a state that passes it and is not what the body
   makes is stale, and stays so in every later run (`Stale.guarded`). A run that
   returns has made what it should if and only if it did not find such a state
   (`guarded_good_iff`), and one finds such a state after a history of runs if and only if
   it was there at the start or a run left one (`after_stale_iff`).

   `stages` is a script of one stage for each part of a state; a stage sees its own
   part only. -/
namespace Shell
open Semantics
variable {σ ρ ι τ α : Type}

def guarded (test : σ → Bool) (body : Script σ Unit) : Script σ Unit := do
  if test (← look) then return ()
  body

/-- A state that the test takes for a finished one. -/
def Stale (test : σ → Bool) (Good : σ → Prop) (s : σ) : Prop := test s = true ∧ ¬ Good s

section Guarded
variable {test : σ → Bool} {body : Script σ Unit} {s t : σ}

theorem guarded_of_test (h : test s = true) : guarded test body s = (.ok (), s) := by
  unfold guarded
  rw [Prog.bind_apply, look]
  dsimp only
  rw [if_pos h]
  rfl

theorem guarded_of_not_test (h : test s = false) : guarded test body s = body s := by
  unfold guarded
  rw [Prog.bind_apply, look]
  dsimp only
  rw [if_neg (by rw [h]; exact Bool.false_ne_true)]

variable {Good : σ → Prop}

theorem Stale.guarded (h : Stale test Good s) : Stale test Good (guarded test body s).2 := by
  rw [guarded_of_test h.1]
  exact h

theorem guarded_good_iff (hbody : ∀ s t, body s = (.ok (), t) → Good t)
    (h : Shell.guarded test body s = (.ok (), t)) : Good t ↔ ¬ Stale test Good s := by
  cases htest : test s with
  | true =>
    rw [guarded_of_test htest] at h
    cases h
    exact ⟨fun hgood hstale => hstale.2 hgood, fun hstale => not_not.mp fun hgood => hstale ⟨htest, hgood⟩⟩
  | false =>
    rw [guarded_of_not_test htest] at h
    exact ⟨fun _ hstale => Bool.false_ne_true (htest.symm.trans hstale.1), fun _ => hbody s t h⟩

end Guarded

/-! Removing what the test looks at. -/

/-- An `rm -rf`. What it leaves when it does not complete passes the test only if it did before. -/
structure Removal (test : σ → Bool) where
  event : Event
  left : σ → σ
  left_le : ∀ s, test (left s) = true → test s = true

def rm {test : σ → Bool} (r : Removal test) (gone : σ) : Script σ Unit :=
  command r.event (fun _ => some gone) r.left

section Removal
variable {test : σ → Bool} {r : Removal test} {s gone : σ}

theorem Removal.left_eq_false (r : Removal test) (h : test s = false) : test (r.left s) = false :=
  Bool.eq_false_iff.mpr fun hleft => Bool.eq_false_iff.mp h (r.left_le s hleft)

theorem rm_of_completes (h : r.event = .completes) : rm r gone s = (.ok (), gone) := by
  unfold rm command
  rw [h]

theorem rm_of_stops (h : r.event ≠ .completes) : ∃ e, rm r gone s = (.error e, r.left s) := by
  unfold rm command
  cases hevent : r.event with
  | completes => exact absurd hevent h
  | fails n => exact ⟨_, rfl⟩
  | killed => exact ⟨_, rfl⟩

end Removal

/-! A history of runs. -/

section History
variable {run : ρ → σ → σ} {P : σ → Prop}

/-- What the runs make of the state, one after another. -/
def after (run : ρ → σ → σ) (history : List ρ) (s : σ) : σ := history.foldl (fun s r => run r s) s

/-- A condition that no run ends holds after a history if it held at its start or a run began it. -/
theorem after_iff (hrun : ∀ r s, P s → P (run r s)) (history : List ρ) (s : σ) :
    P (after run history s) ↔
      P s ∨ ∃ before r rest, history = before ++ r :: rest ∧
        ¬ P (after run before s) ∧ P (run r (after run before s)) := by
  induction history generalizing s with
  | nil =>
    refine ⟨Or.inl, ?_⟩
    rintro (h | ⟨before, r, rest, h, -⟩)
    · exact h
    · exact absurd h.symm (List.append_ne_nil_of_right_ne_nil _ (List.cons_ne_nil r rest))
  | cons r history ih =>
    refine (ih (run r s)).trans ?_
    constructor
    · rintro (h | ⟨before, r', rest, rfl, h⟩)
      · by_cases hs : P s
        · exact Or.inl hs
        · exact Or.inr ⟨[], r, history, rfl, hs, h⟩
      · exact Or.inr ⟨r :: before, r', rest, rfl, h⟩
    · rintro (h | ⟨before, r', rest, heq, h⟩)
      · exact Or.inl (hrun r s h)
      · cases before with
        | nil =>
          cases heq
          exact Or.inl h.2
        | cons _ before =>
          cases heq
          exact Or.inr ⟨before, r', rest, rfl, h⟩

theorem after_append_singleton (history : List ρ) (r : ρ) (s : σ) :
    after run (history ++ [r]) s = run r (after run history s) := List.foldl_append

/-- A part of the state that every run leaves alone when it passes the test is stale after a history
    if it was so at its start, or a run that found it not to pass left it so. -/
theorem after_stale_iff {part : σ → τ} {test : τ → Bool} {Good : τ → Prop}
    (hskip : ∀ r s, test (part s) = true → part (run r s) = part s) (history : List ρ) (s : σ) :
    Stale test Good (part (after run history s)) ↔
      Stale test Good (part s) ∨ ∃ before r rest, history = before ++ r :: rest ∧
        test (part (after run before s)) = false ∧
        Stale test Good (part (after run (before ++ [r]) s)) := by
  have hrun : ∀ r s, Stale test Good (part s) → Stale test Good (part (run r s)) := by
    intro r s h
    rw [hskip r s h.1]
    exact h
  refine (after_iff hrun history s).trans ?_
  refine or_congr_right (exists_congr fun before => exists_congr fun r => exists_congr fun rest =>
    and_congr_right fun _ => ?_)
  rw [after_append_singleton]
  refine and_congr_left fun hleft => ⟨fun hnot => ?_, fun htest h => ?_⟩
  · -- a part that the run passed over was as stale before
    by_contra htest
    rw [hskip r _ (Bool.not_eq_false _ ▸ htest)] at hleft
    exact hnot hleft
  · exact Bool.false_ne_true (htest.symm.trans h.1)

end History

/-! One stage for each part. -/

section Stages
variable {κ : Type} [DecidableEq ι]

/-- A script for the part `i`. -/
def within (i : ι) (x : Script τ α) : Script (ι → τ) α := fun s =>
  ((x (s i)).1, Function.update s i (x (s i)).2)

/-- A stage for each `k` of the list, in the part `key k`. -/
def stages (key : κ → ι) (x : κ → Script τ Unit) : List κ → Script (ι → τ) Unit
  | [] => pure ()
  | k :: rest => do
    within (key k) (x k)
    stages key x rest

variable {key : κ → ι} {x : κ → Script τ Unit}

theorem stages_cons (k : κ) (rest : List κ) (s : ι → τ) :
    stages key x (k :: rest) s = match (x k (s (key k))).1 with
      | .ok _ => stages key x rest (Function.update s (key k) (x k (s (key k))).2)
      | .error e => (.error e, Function.update s (key k) (x k (s (key k))).2) := by
  rw [stages, Prog.bind_apply, within]
  cases (x k (s (key k))).1 with
  | ok a => rfl
  | error e => rfl

/-- A part is as the run found it, or as its stage made it. -/
theorem stages_part {l : List κ} (hl : (l.map key).Nodup) (s : ι → τ) (i : ι) :
    (stages key x l s).2 i = s i ∨
      ∃ k ∈ l, key k = i ∧ (stages key x l s).2 i = (x k (s i)).2 := by
  induction l generalizing s with
  | nil => exact Or.inl rfl
  | cons k rest ih =>
    obtain ⟨hk, hrest⟩ := List.nodup_cons.mp hl
    rw [stages_cons]
    by_cases hi : key k = i
    · subst hi
      refine Or.inr ⟨k, List.mem_cons_self, rfl, ?_⟩
      cases (x k (s (key k))).1 with
      | ok a =>
        rcases ih hrest (Function.update s (key k) (x k (s (key k))).2) with h | ⟨k', hk', hkey, -⟩
        · exact h.trans (Function.update_self ..)
        · exact absurd (List.mem_map.mpr ⟨k', hk', hkey⟩) hk
      | error e => exact Function.update_self ..
    · have hs : Function.update s (key k) (x k (s (key k))).2 i = s i :=
        Function.update_of_ne (Ne.symm hi) ..
      cases (x k (s (key k))).1 with
      | ok a =>
        rcases ih hrest (Function.update s (key k) (x k (s (key k))).2) with h | ⟨k', hk', hkey, h⟩
        · exact Or.inl (h.trans hs)
        · exact Or.inr ⟨k', List.mem_cons_of_mem k hk', hkey, h.trans (by rw [hs])⟩
      | error e => exact Or.inl hs

theorem stages_eq_ok {l : List κ} (hl : (l.map key).Nodup) {s t : ι → τ}
    (h : stages key x l s = (.ok (), t)) : ∀ k ∈ l, x k (s (key k)) = (.ok (), t (key k)) := by
  induction l generalizing s with
  | nil => exact fun k hk => absurd hk List.not_mem_nil
  | cons k rest ih =>
    obtain ⟨hk, hrest⟩ := List.nodup_cons.mp hl
    rw [stages_cons] at h
    cases hr : x k (s (key k)) with
    | mk r u =>
      rw [hr] at h
      cases r with
      | error e => cases h
      | ok a =>
        dsimp only at h
        intro k' hk'
        rcases List.mem_cons.mp hk' with rfl | hk'
        · rcases stages_part (x := x) hrest (Function.update s (key k') u) (key k') with hu | ⟨j, hj, hkey, -⟩
          · rw [h, Function.update_self] at hu
            rw [hr, ← hu]
          · exact absurd (List.mem_map.mpr ⟨j, hj, hkey⟩) hk
        · have hne : key k' ≠ key k := fun heq => hk (heq ▸ List.mem_map_of_mem hk')
          exact (Function.update_of_ne hne u s) ▸ ih hrest h k' hk'

end Stages
end Shell
