import Mathlib

/- Programs over a state that return or raise, where the state reached stays when
   they raise, and triples for them with two postconditions: one for the returns
   (`Q`) and one for the exceptions (`E`). What has to hold whenever a step fails is
   carried as `E` from step to step (`Triple.bind`), and a handler starts from it
   (`Triple.handle`). `On` is a triple about a part of the state, for programs whose
   other parts (the failures to come, what was printed) no condition mentions. -/
namespace Semantics
variable {σ ε α β : Type}

/-- The program's result, and the state it leaves. -/
def Prog (σ ε α : Type) : Type := σ → Except ε α × σ

instance : Monad (Prog σ ε) where
  pure a := fun s => (.ok a, s)
  bind x f := fun s => match x s with
    | (.ok a, t) => f a t
    | (.error e, t) => (.error e, t)

namespace Prog

def raise (e : ε) : Prog σ ε α := fun s => (.error e, s)

/-- The handler runs from the state in which the exception left the program. -/
def handle (x : Prog σ ε α) (handler : ε → Prog σ ε α) : Prog σ ε α := fun s =>
  match x s with
  | (.ok a, t) => (.ok a, t)
  | (.error e, t) => handler e t

/-- A computation without the state. -/
def lift (r : Except ε α) : Prog σ ε α := fun s => (r, s)

end Prog

theorem Prog.bind_apply (x : Prog σ ε α) (f : α → Prog σ ε β) (s : σ) :
    (x >>= f) s = match x s with
      | (.ok a, t) => f a t
      | (.error e, t) => (.error e, t) := rfl

/-- The outcome satisfies the postcondition of its kind. -/
def Post (Q : α → σ → Prop) (E : ε → σ → Prop) : Except ε α × σ → Prop
  | (.ok a, t) => Q a t
  | (.error e, t) => E e t

/-- From every state with `P` the program ends with `Q`, or raises with `E`. -/
def Triple (P : σ → Prop) (x : Prog σ ε α) (Q : α → σ → Prop) (E : ε → σ → Prop) : Prop :=
  ∀ s, P s → Post Q E (x s)

namespace Triple
variable {P P' : σ → Prop} {Q Q' : α → σ → Prop} {R : β → σ → Prop} {E E' : ε → σ → Prop}
  {x : Prog σ ε α} {f : α → Prog σ ε β}

theorem pure {a : α} (h : ∀ s, P s → Q a s) : Triple P (Pure.pure a : Prog σ ε α) Q E := h

theorem raise {e : ε} (h : ∀ s, P s → E e s) : Triple P (Prog.raise e : Prog σ ε α) Q E := h

theorem bind (hx : Triple P x Q E) (hf : ∀ a, Triple (Q a) (f a) R E) :
    Triple P (x >>= f) R E := by
  intro s hs
  have h := hx s hs
  rw [Prog.bind_apply]
  cases hr : x s with
  | mk r t =>
    rw [hr] at h
    cases r with
    | ok a => exact hf a t h
    | error e => exact h

theorem handle {handler : ε → Prog σ ε α} (hx : Triple P x Q E')
    (hh : ∀ e, Triple (E' e) (handler e) Q E) : Triple P (x.handle handler) Q E := by
  intro s hs
  have h := hx s hs
  rw [Prog.handle]
  cases hr : x s with
  | mk r t =>
    rw [hr] at h
    cases r with
    | ok a => exact h
    | error e => exact hh e t h

theorem conseq (hx : Triple P x Q E) (hP : ∀ s, P' s → P s) (hQ : ∀ a s, Q a s → Q' a s)
    (hE : ∀ e s, E e s → E' e s) : Triple P' x Q' E' := by
  intro s hs
  have h := hx s (hP s hs)
  cases hr : x s with
  | mk r t =>
    rw [hr] at h
    cases r with
    | ok a => exact hQ a t h
    | error e => exact hE e t h

theorem ite {c : Prop} [Decidable c] {y : Prog σ ε α} (hx : c → Triple P x Q E)
    (hy : ¬ c → Triple P y Q E) : Triple P (if c then x else y) Q E := by
  by_cases h : c
  · rw [if_pos h]
    exact hx h
  · rw [if_neg h]
    exact hy h

/-- A computation without the state keeps what holds of it. -/
theorem lift {r : Except ε α} (hok : ∀ a, r = .ok a → ∀ s, P s → Q a s)
    (hraise : ∀ e s, P s → E e s) : Triple P (Prog.lift r) Q E := by
  intro s hs
  cases r with
  | ok a => exact hok a rfl s hs
  | error e => exact hraise e s hs

/-- A fact that does not depend on the state comes out of the precondition. -/
theorem of_fact {c : Prop} (h : c → Triple P x Q E) : Triple (fun s => c ∧ P s) x Q E :=
  fun s hs => h hs.1 s hs.2

end Triple

/-- A triple about the part `view` of the state, with one condition for all exceptions. -/
def On {τ : Type} (view : σ → τ) (P : τ → Prop) (x : Prog σ ε α) (Q : α → τ → Prop) (E : τ → Prop) :
    Prop := Triple (fun s => P (view s)) x (fun a s => Q a (view s)) (fun _ s => E (view s))

namespace On
variable {τ : Type} {view : σ → τ} {P P' E E' : τ → Prop} {Q Q' : α → τ → Prop}
  {R : β → τ → Prop} {x : Prog σ ε α} {f : α → Prog σ ε β}

theorem pure {a : α} (h : ∀ t, P t → Q a t) : On view P (Pure.pure a : Prog σ ε α) Q E :=
  Triple.pure fun s => h (view s)

theorem raise {e : ε} (h : ∀ t, P t → E t) : On view P (Prog.raise e : Prog σ ε α) Q E :=
  Triple.raise fun s => h (view s)

theorem bind (hx : On view P x Q E) (hf : ∀ a, On view (Q a) (f a) R E) :
    On view P (x >>= f) R E := Triple.bind hx hf

theorem handle {handler : ε → Prog σ ε α} (F : τ → Prop) (hx : On view P x Q F)
    (hh : ∀ e, On view F (handler e) Q E) : On view P (x.handle handler) Q E :=
  Triple.handle hx hh

theorem ite {c : Prop} [Decidable c] {y : Prog σ ε α} (hx : c → On view P x Q E)
    (hy : ¬ c → On view P y Q E) : On view P (if c then x else y) Q E := Triple.ite hx hy

theorem conseq (hx : On view P x Q E) (hP : ∀ t, P' t → P t) (hQ : ∀ a t, Q a t → Q' a t)
    (hE : ∀ t, E t → E' t) : On view P' x Q' E' :=
  Triple.conseq hx (fun s => hP (view s)) (fun a s => hQ a (view s)) (fun _ s => hE (view s))

theorem lift {r : Except ε α} (herr : ∀ t, P t → E t) :
    On view P (Prog.lift r) (fun a t => r = .ok a ∧ P t) E :=
  Triple.lift (fun _ ha _ h => ⟨ha, h⟩) (fun _ s h => herr (view s) h)

theorem of_fact {c : Prop} (h : c → On view P x Q E) : On view (fun t => c ∧ P t) x Q E :=
  Triple.of_fact h

/-- A value that is only known to exist is fixed. -/
theorem of_exists {ι : Type} {P : ι → τ → Prop} (h : ∀ i, On view (P i) x Q E) :
    On view (fun t => ∃ i, P i t) x Q E := fun s ⟨i, hi⟩ => h i s hi

/-- What a run reaches, whether it returns or raises. -/
theorem of_run (hx : On view P x (fun _ => P') P') {s : σ} (hs : P (view s)) :
    P' (view (x s).2) := by
  have h := hx s hs
  cases hr : x s with
  | mk r t =>
    rw [hr] at h
    cases r with
    | ok a => exact h
    | error e => exact h

end On
end Semantics
