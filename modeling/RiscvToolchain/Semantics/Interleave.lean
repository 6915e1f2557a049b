import Mathlib

/- Interleavings of the actions of several parties on one state. An interleaving is a
   list of actions, each with the party that took it; a party's own actions are read
   off it in their order (`own`). A part of the state that only one party's actions
   change is what that party alone would have made of it (`view_foldl`), whatever
   the others do in between. -/
namespace Semantics
variable {ι α σ τ : Type} [DecidableEq ι]

/-- The actions of one party, in their order. -/
def own (i : ι) (g : List (ι × α)) : List α := (g.filter (·.1 = i)).map Prod.snd

@[simp] theorem own_nil (i : ι) : own i ([] : List (ι × α)) = [] := rfl

@[simp] theorem own_cons_self (i : ι) (a : α) (g : List (ι × α)) :
    own i ((i, a) :: g) = a :: own i g := by
  simp [own]

theorem own_cons_of_ne {i j : ι} (h : j ≠ i) (a : α) (g : List (ι × α)) :
    own i ((j, a) :: g) = own i g := by
  simp [own, h]

theorem own_append (i : ι) (g h : List (ι × α)) : own i (g ++ h) = own i g ++ own i h := by
  simp [own]

theorem mem_own {i : ι} {a : α} {g : List (ι × α)} : a ∈ own i g ↔ (i, a) ∈ g := by
  simp [own]

theorem own_map_self (i : ι) (l : List α) : own i (l.map (i, ·)) = l := by
  induction l with
  | nil => rfl
  | cons a l ih => rw [List.map_cons, own_cons_self, ih]

theorem own_map_of_ne {i j : ι} (h : j ≠ i) (l : List α) : own i (l.map (j, ·)) = [] := by
  induction l with
  | nil => rfl
  | cons a l ih => rw [List.map_cons, own_cons_of_ne h, ih]

section Frame
variable {step : σ → α → σ} {view : σ → τ} {stepView : τ → α → τ} {i : ι} {g : List (ι × α)}

/-- By induction on the interleaving: the others' actions do not show in the view. -/
theorem view_foldl (hown : ∀ a, (i, a) ∈ g → ∀ s, view (step s a) = stepView (view s) a)
    (hother : ∀ j a, (j, a) ∈ g → j ≠ i → ∀ s, view (step s a) = view s) (s : σ) :
    view (g.foldl (fun s x => step s x.2) s) = (own i g).foldl stepView (view s) := by
  induction g generalizing s with
  | nil => rfl
  | cons x g ih =>
    obtain ⟨j, a⟩ := x
    have ih := ih (fun a ha => hown a (List.mem_cons_of_mem _ ha))
      (fun j a ha => hother j a (List.mem_cons_of_mem _ ha)) (step s a)
    rw [List.foldl_cons, ih]
    by_cases hj : j = i
    · subst hj
      rw [own_cons_self, List.foldl_cons, hown a List.mem_cons_self]
    · rw [own_cons_of_ne hj, hother j a List.mem_cons_self hj]

end Frame
end Semantics
