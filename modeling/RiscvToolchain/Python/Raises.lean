import Mathlib

/- Code that may raise: a result or the exception that ended it. The rules take a
   computation that returned apart into the steps that returned. -/
namespace Python
variable {ε α β σ : Type}

theorem bind_ok {x : Except ε α} {f : α → Except ε β} {b : β} (h : (x >>= f) = .ok b) :
    ∃ a, x = .ok a ∧ f a = .ok b := by
  cases x with
  | error e => cases h
  | ok a => exact ⟨a, rfl, h⟩

theorem foldlM_cons_ok {f : σ → α → Except ε σ} {s t : σ} {a : α} {l : List α}
    (h : (a :: l).foldlM f s = .ok t) : ∃ u, f s a = .ok u ∧ l.foldlM f u = .ok t := by
  rw [List.foldlM_cons] at h
  exact bind_ok h

/-- Two nested loops are one loop over the pairs. -/
theorem foldlM_flatMap {f : σ → β → Except ε σ} (g : α → List β) : ∀ (l : List α) (s : σ),
    (l.flatMap g).foldlM f s = l.foldlM (fun s a => (g a).foldlM f s) s
  | [], _ => rfl
  | a :: l, s => by
    rw [List.flatMap_cons, List.foldlM_append, List.foldlM_cons]
    congr 1
    funext u
    exact foldlM_flatMap g l u

end Python
