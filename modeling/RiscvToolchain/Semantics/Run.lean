import Mathlib

/- Runs of a list of instructions over any step relation, and forward analyses of
   them: a transfer function that is sound step by step is sound along a run
   (`Run.foldl_sound`), and a condition on the instructions that is monotone in the
   facts known survives when more is known (`Always.mono`). -/
namespace Semantics
variable {ι σ A : Type}

/-- A run of the instructions, one after another. -/
inductive Run (step : ι → σ → σ → Prop) : List ι → σ → σ → Prop where
  | nil (s : σ) : Run step [] s s
  | cons {i : ι} {l : List ι} {s t u : σ} : step i s t → Run step l t u → Run step (i :: l) s u

section Runs
variable {step : ι → σ → σ → Prop}

theorem Run.append_iff {l m : List ι} {s u : σ} :
    Run step (l ++ m) s u ↔ ∃ t, Run step l s t ∧ Run step m t u := by
  induction l generalizing s with
  | nil =>
    refine ⟨fun h => ⟨s, .nil s, h⟩, ?_⟩
    intro ⟨t, hl, hm⟩
    cases hl
    exact hm
  | cons i l ih =>
    refine ⟨?_, ?_⟩
    · intro h
      cases h with
      | cons hi hl =>
        obtain ⟨t, hl, hm⟩ := ih.mp hl
        exact ⟨t, .cons hi hl, hm⟩
    · intro ⟨t, hl, hm⟩
      cases hl with
      | cons hi hl => exact .cons hi (ih.mpr ⟨t, hl, hm⟩)

/-- A transfer function that is sound for one step is sound for a run. -/
theorem Run.foldl_sound {γ : A → σ → Prop} {transfer : A → ι → A}
    (sound : ∀ a i s t, γ a s → step i s t → γ (transfer a i) t) {l : List ι} {s t : σ}
    (h : Run step l s t) : ∀ a, γ a s → γ (l.foldl transfer a) t := by
  induction h with
  | nil s => exact fun a ha => ha
  | cons hi _ ih => exact fun a ha => ih _ (sound a _ _ _ ha hi)

end Runs

section Analysis
variable (transfer : A → ι → A) (ok : A → ι → Prop)

/-- Every instruction meets the condition in the facts known before it. -/
def Always : A → List ι → Prop
  | _, [] => True
  | a, i :: l => ok a i ∧ Always (transfer a i) l

variable {transfer ok}

theorem Always.append_iff {a : A} {l m : List ι} :
    Always transfer ok a (l ++ m) ↔
      Always transfer ok a l ∧ Always transfer ok (l.foldl transfer a) m := by
  induction l generalizing a with
  | nil => simp [Always]
  | cons i l ih => simp [Always, ih, and_assoc]

variable {le : A → A → Prop} (hok : ∀ a b i, le a b → ok a i → ok b i)
  (htransfer : ∀ a b i, le a b → le (transfer a i) (transfer b i))

include hok htransfer in
theorem Always.mono {a b : A} (h : le a b) {l : List ι} (hl : Always transfer ok a l) :
    Always transfer ok b l := by
  induction l generalizing a b with
  | nil => trivial
  | cons i l ih => exact ⟨hok a b i h hl.1, ih (htransfer a b i h) hl.2⟩

end Analysis
end Semantics
