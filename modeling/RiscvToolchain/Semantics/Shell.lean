import RiscvToolchain.Semantics.Prog

/- Scripts under `set -e`, over any state. A command completes, fails, or is the one
   at which the script is killed (`Event`); one that does not complete leaves the
   state that it is said to leave. What becomes of a command is an argument of it, so
   a script that runs no command twice is a program over its commands' events.

   A failed command ends the script with its status (`Exit`), unless it stands in a
   condition. The trap on exit runs however the script ends by itself, and its own
   failure is then the script's status. Rules come for triples, whose postcondition
   for the end of the script sees how it ends, and for the equation that a script
   returns. -/
namespace Shell
open Semantics
variable {σ α β : Type}

inductive Event where
  | completes
  /-- With the status `n + 1`. -/
  | fails (n : Nat)
  | killed
  deriving DecidableEq, Repr

/-- How a script ends before its end. -/
inductive Exit where
  | status (n : Nat)
  | killed
  deriving DecidableEq, Repr

abbrev Script (σ α : Type) : Type := Prog σ Exit α

/-- A command: what it does when it completes (`none` is an error of its own), and what it leaves
    when it does not. -/
def command (event : Event) (effect : σ → Option σ) (stopped : σ → σ) : Script σ Unit := fun s =>
  match event with
  | .completes =>
    match effect s with
    | some t => (.ok (), t)
    | none => (.error (.status 1), stopped s)
  | .fails n => (.error (.status (n + 1)), stopped s)
  | .killed => (.error .killed, stopped s)

/-- The state, for a test in the script. -/
def look : Script σ σ := fun s => (.ok s, s)

/-- `exit n`, and the end of the script under `set -e`. -/
def exit (n : Nat) : Script σ α := Prog.raise (.status n)

/-- A command as a condition: its failure is an answer. -/
def succeeds (x : Script σ Unit) : Script σ Bool :=
  (do x; return true).handle fun
    | .status _ => pure false
    | .killed => Prog.raise .killed

/-- `trap cleanup EXIT`, and the rest of the script. -/
def onExit (cleanup body : Script σ Unit) : Script σ Unit := do
  body.handle fun
    | .killed => Prog.raise .killed
    | .status n => do
      cleanup
      exit n
  cleanup

section Triples
variable {P Q : σ → Prop} {E : Exit → σ → Prop}

theorem command_triple {event : Event} {effect : σ → Option σ} {stopped : σ → σ}
    (hdone : ∀ s t, P s → effect s = some t → Q t)
    (hfail : ∀ n s, P s → (event = .completes → effect s = none) → E (.status (n + 1)) (stopped s))
    (hkill : ∀ s, P s → E .killed (stopped s)) :
    Triple P (command event effect stopped) (fun _ => Q) E := by
  intro s hs
  unfold command
  cases event with
  | completes =>
    dsimp only
    cases he : effect s with
    | none => exact hfail 0 s hs fun _ => he
    | some t => exact hdone s t hs he
  | fails n => exact hfail n s hs nofun
  | killed => exact hkill s hs

theorem look_triple {R : σ → σ → Prop} (h : ∀ s, P s → R s s) : Triple P look R E := h

theorem exit_triple {n : Nat} {R : α → σ → Prop} (h : ∀ s, P s → E (.status n) s) :
    Triple P (exit n : Script σ α) R E := Triple.raise h

/-- What a command keeps however it ends, it keeps as a condition. -/
theorem succeeds_keeps {x : Script σ Unit} (hx : Triple P x (fun _ => P) (fun _ => P)) :
    Triple P (succeeds x) (fun _ => P) (fun _ => P) := by
  apply Triple.handle (Triple.bind hx fun _ => Triple.pure fun _ h => h)
  intro e
  cases e with
  | status n => exact Triple.pure fun _ h => h
  | killed => exact Triple.raise fun _ h => h

/-- The trap runs from what the body left, and not when the script is killed there. -/
theorem onExit_triple {cleanup body : Script σ Unit} {R : σ → Prop} {F : Exit → σ → Prop}
    (hbody : Triple P body (fun _ => Q) F) (hkill : ∀ s, F .killed s → E .killed s)
    (hclean : Triple Q cleanup (fun _ => R) E)
    (hfail : ∀ n, Triple (F (.status n)) cleanup (fun _ s => E (.status n) s) E) :
    Triple P (onExit cleanup body) (fun _ => R) E := by
  refine Triple.bind (Triple.handle hbody fun e => ?_) fun _ => hclean
  cases e with
  | killed => exact Triple.raise hkill
  | status n => exact Triple.bind (hfail n) fun _ => exit_triple fun s h => h

end Triples

/-! When a script returns. -/

section Returns
variable {s t : σ}

theorem bind_eq_ok {x : Script σ α} {f : α → Script σ β} {b : β} :
    (x >>= f) s = (.ok b, t) ↔ ∃ a u, x s = (.ok a, u) ∧ f a u = (.ok b, t) := by
  rw [Prog.bind_apply]
  cases hx : x s with
  | mk r u =>
    cases r with
    | ok a =>
      constructor
      · exact fun h => ⟨a, u, rfl, h⟩
      · intro ⟨a', u', h, h'⟩
        cases h
        exact h'
    | error e =>
      constructor
      · exact fun h => nomatch (Prod.mk.inj h).1
      · intro ⟨a', u', h, h'⟩
        cases h

theorem command_eq_ok {event : Event} {effect : σ → Option σ} {stopped : σ → σ} {a : Unit} :
    command event effect stopped s = (.ok a, t) ↔ event = .completes ∧ effect s = some t := by
  unfold command
  cases event with
  | completes =>
    cases he : effect s with
    | none => simp
    | some u => simp
  | fails n => simp
  | killed => simp

/-- A command without an error of its own, and what follows it. -/
theorem command_bind_eq_ok {event : Event} {effect stopped : σ → σ} {f : Unit → Script σ β} {b : β} :
    (command event (fun s => some (effect s)) stopped >>= f) s = (.ok b, t) ↔
      event = .completes ∧ f () (effect s) = (.ok b, t) := by
  rw [bind_eq_ok]
  constructor
  · intro ⟨a, u, h, h'⟩
    obtain ⟨hevent, hu⟩ := command_eq_ok.mp h
    cases hu
    exact ⟨hevent, h'⟩
  · intro ⟨hevent, h'⟩
    exact ⟨(), effect s, command_eq_ok.mpr ⟨hevent, rfl⟩, h'⟩

/-- As a condition, a command gives no answer only where it is killed. -/
theorem exists_succeeds_eq_ok {event : Event} {effect : σ → Option σ} {stopped : σ → σ} :
    (∃ b t, succeeds (command event effect stopped) s = (.ok b, t)) ↔ event ≠ .killed := by
  rw [succeeds, Prog.handle, Prog.bind_apply]
  unfold command
  cases event with
  | completes =>
    have hcompletes : Event.completes ≠ .killed := by simp
    cases he : effect s with
    | none => exact ⟨fun _ => hcompletes, fun _ => ⟨_, _, rfl⟩⟩
    | some u => exact ⟨fun _ => hcompletes, fun _ => ⟨_, _, rfl⟩⟩
  | fails n =>
    have hfails : Event.fails n ≠ .killed := by simp
    exact ⟨fun _ => hfails, fun _ => ⟨_, _, rfl⟩⟩
  | killed =>
    refine ⟨?_, fun h => absurd rfl h⟩
    rintro ⟨b, t, h⟩
    cases h

theorem onExit_eq_ok {cleanup body : Script σ Unit} {a : Unit} :
    onExit cleanup body s = (.ok a, t) ↔
      ∃ u, body s = (.ok (), u) ∧ cleanup u = (.ok (), t) := by
  rw [onExit, bind_eq_ok]
  constructor
  · rintro ⟨a', u, h, h'⟩
    refine ⟨u, ?_, h'⟩
    rw [Prog.handle] at h
    cases hbody : body s with
    | mk r v =>
      rw [hbody] at h
      cases r with
      | ok _ => exact h
      | error e =>
        cases e with
        | killed => cases h
        | status n =>
          -- after a failed body the script does not return
          obtain ⟨_, _, -, hexit⟩ := bind_eq_ok.mp h
          cases hexit
  · rintro ⟨u, h, h'⟩
    exact ⟨(), u, by rw [Prog.handle, h], h'⟩

end Returns

end Shell
