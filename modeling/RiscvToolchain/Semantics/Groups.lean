import Mathlib.Data.List.Basic
import Mathlib.Data.List.GetD

/- Runs of neighbours with one key, and loops over neighbours. A list is cut where the
   key changes (`groups`); where equal keys stand together (`Contiguous`), as they do
   in a list that is sorted by key first, every key has one group. A loop over the
   neighbours of a list does its groups one after the other when a separator stands
   between them that the loop passes over (`foldPairs_intercalate`). -/
namespace Semantics
variable {α κ σ : Type}

section Groups
variable [DecidableEq κ] (key : α → κ)

/-- The runs of neighbours with one key. -/
def groups : List α → List (List α)
  | [] => []
  | a :: l =>
    match groups l with
    | (b :: g) :: gs => if key a = key b then (a :: b :: g) :: gs else [a] :: (b :: g) :: gs
    | gs => [a] :: gs

/-- Elements with one key stand together. -/
def Contiguous : List α → Prop
  | [] => True
  | a :: l => ((∃ b ∈ l, key b = key a) → ∃ b, l.head? = some b ∧ key b = key a) ∧ Contiguous l

/-- A group with one more element in front: it joins the first group, or is one of its own. -/
theorem groups_cons (a : α) (l : List α) :
    (∃ b g gs, groups key l = (b :: g) :: gs ∧ key a = key b ∧
      groups key (a :: l) = (a :: b :: g) :: gs) ∨
    (groups key (a :: l) = [a] :: groups key l ∧
      ∀ b g gs, groups key l = (b :: g) :: gs → key a ≠ key b) := by
  rw [groups]
  split
  · next b g gs hgs =>
    by_cases hk : key a = key b
    · exact Or.inl ⟨b, g, gs, hgs, hk, if_pos hk⟩
    · refine Or.inr ⟨by rw [if_neg hk, hgs], ?_⟩
      intro b' g' gs' h
      obtain ⟨hg, -⟩ := List.cons.inj (hgs.symm.trans h)
      rwa [← (List.cons.inj hg).1]
  · next hne => exact Or.inr ⟨rfl, fun b g gs h => (hne b g gs h).elim⟩

theorem groups_flatten (l : List α) : (groups key l).flatten = l := by
  induction l with
  | nil => rfl
  | cons a l ih =>
    rcases groups_cons key a l with ⟨b, g, gs, hl, -, h⟩ | ⟨h, -⟩
    · rw [h, ← ih, hl]
      rfl
    · rw [h, List.flatten_cons, ih]
      rfl

theorem ne_nil_of_mem_groups {l g : List α} (h : g ∈ groups key l) : g ≠ [] := by
  induction l with
  | nil => cases h
  | cons a l ih =>
    rcases groups_cons key a l with ⟨b, g', gs, hl, -, heq⟩ | ⟨heq, -⟩
    · rw [heq] at h
      rcases List.mem_cons.mp h with rfl | h
      · exact List.cons_ne_nil _ _
      · exact ih (by rw [hl]; exact List.mem_cons_of_mem _ h)
    · rw [heq] at h
      rcases List.mem_cons.mp h with rfl | h
      · exact List.cons_ne_nil _ _
      · exact ih h

/-- A group has one key. -/
theorem key_eq_of_mem_groups {l g : List α} (h : g ∈ groups key l) :
    ∀ a ∈ g, ∀ b ∈ g, key a = key b := by
  induction l generalizing g with
  | nil => cases h
  | cons a l ih =>
    rcases groups_cons key a l with ⟨b, g', gs, hl, hk, heq⟩ | ⟨heq, -⟩
    · rw [heq] at h
      rcases List.mem_cons.mp h with rfl | h
      · have hone := ih (g := b :: g') (by rw [hl]; exact List.mem_cons_self)
        have hall : ∀ x ∈ a :: b :: g', key x = key b := by
          intro x hx
          rcases List.mem_cons.mp hx with rfl | hx
          · exact hk
          · exact hone x hx b List.mem_cons_self
        intro x hx y hy
        rw [hall x hx, hall y hy]
      · exact ih (by rw [hl]; exact List.mem_cons_of_mem _ h)
    · rw [heq] at h
      rcases List.mem_cons.mp h with rfl | h
      · intro x hx y hy
        rw [List.mem_singleton.mp hx, List.mem_singleton.mp hy]
      · exact ih h

/-- Where equal keys stand together, different groups have different keys. -/
theorem Contiguous.groups_pairwise {l : List α} (h : Contiguous key l) :
    (groups key l).Pairwise fun g g' => ∀ a ∈ g, ∀ b ∈ g', key a ≠ key b := by
  induction l with
  | nil => exact List.Pairwise.nil
  | cons a l ih =>
    have ih := ih h.2
    rcases groups_cons key a l with ⟨b, g, gs, hl, hk, heq⟩ | ⟨heq, hne⟩
    · rw [heq]
      rw [hl, List.pairwise_cons] at ih
      refine List.pairwise_cons.mpr ⟨?_, ih.2⟩
      intro g' hg' x hx y hy
      rcases List.mem_cons.mp hx with rfl | hx
      · rw [hk]
        exact ih.1 g' hg' b List.mem_cons_self y hy
      · exact ih.1 g' hg' x hx y hy
    · rw [heq]
      refine List.pairwise_cons.mpr ⟨?_, ih⟩
      intro g' hg' x hx y hy heqk
      obtain rfl := List.mem_singleton.mp hx
      -- another element with its key would be the next one, and so in the group of it
      have hmem : y ∈ l := by
        rw [← groups_flatten key l]
        exact List.mem_flatten.mpr ⟨g', hg', hy⟩
      obtain ⟨b, hb, hkb⟩ := h.1 ⟨y, hmem, heqk.symm⟩
      cases hgs : groups key l with
      | nil =>
        rw [hgs] at hg'
        cases hg'
      | cons g gs =>
        cases g with
        | nil => exact ne_nil_of_mem_groups key (by rw [hgs]; exact List.mem_cons_self) rfl
        | cons b' g =>
          have hhead : l.head? = some b' := by
            rw [← groups_flatten key l, hgs]
            rfl
          rw [hb] at hhead
          obtain rfl := Option.some.inj hhead
          exact hne b g gs hgs hkb.symm

omit [DecidableEq κ] in
theorem contiguous_of_pairwise {le : α → α → Prop} {l : List α} (h : l.Pairwise le)
    (hle : ∀ a x b, le a x → le x b → key b = key a → key x = key a) : Contiguous key l := by
  induction l with
  | nil => trivial
  | cons a l ih =>
    obtain ⟨ha, hl⟩ := List.pairwise_cons.mp h
    refine ⟨?_, ih hl⟩
    intro ⟨b, hb, hk⟩
    cases l with
    | nil => cases hb
    | cons x l =>
      refine ⟨x, rfl, ?_⟩
      rcases List.mem_cons.mp hb with rfl | hb
      · exact hk
      · exact hle a x b (ha x List.mem_cons_self) ((List.pairwise_cons.mp hl).1 b hb) hk

end Groups

section Pairs
variable (f : σ → α → α → σ)

/-- A loop over the neighbours of a list. -/
def foldPairs : σ → List α → σ
  | s, a :: b :: l => foldPairs (f s a b) (b :: l)
  | s, _ => s

/-- The loop by the index of the later one. -/
theorem foldl_index_eq (d : α) (l : List α) (s : σ) :
    (List.range' 1 (l.length - 1)).foldl (fun s i => f s (l.getD (i - 1) d) (l.getD i d)) s =
      foldPairs f s l := by
  have hzip : (List.range' 1 (l.length - 1)).map (fun i => (l.getD (i - 1) d, l.getD i d)) =
      l.zip l.tail := by
    apply List.ext_getElem
    · simp
    · intro i h₁ h₂
      simp only [List.length_zip, List.length_tail] at h₂
      simp only [List.getElem_map, List.getElem_range', List.getElem_zip, List.getElem_tail]
      rw [show 1 + 1 * i - 1 = i by omega, show 1 + 1 * i = i + 1 by omega,
        List.getD_eq_getElem _ _ (by omega), List.getD_eq_getElem _ _ (by omega)]
  have hpairs : ∀ (l : List α) (s : σ),
      (l.zip l.tail).foldl (fun s p => f s p.1 p.2) s = foldPairs f s l := by
    intro l
    induction l with
    | nil => exact fun s => rfl
    | cons a l ih =>
      intro s
      cases l with
      | nil => rfl
      | cons b l => exact ih (f s a b)
  rw [← hpairs, ← hzip, List.foldl_map]

variable {f} {x : α}

theorem foldPairs_separator (hr : ∀ s b, f s x b = s) (s : σ) (l : List α) :
    foldPairs f s (x :: l) = foldPairs f s l := by
  cases l with
  | nil => rfl
  | cons b l => rw [foldPairs, hr]

theorem foldPairs_append (hl : ∀ s a, f s a x = s) (hr : ∀ s b, f s x b = s) (s : σ)
    (g rest : List α) : foldPairs f s (g ++ x :: rest) = foldPairs f (foldPairs f s g) rest := by
  induction g generalizing s with
  | nil => exact foldPairs_separator hr s rest
  | cons a g ih =>
    cases g with
    | nil =>
      show foldPairs f (f s a x) (x :: rest) = _
      rw [hl, foldPairs_separator hr]
      rfl
    | cons b g => exact ih (f s a b)

/-- Groups with a separator between them, one after the other. -/
theorem foldPairs_intercalate (hl : ∀ s a, f s a x = s) (hr : ∀ s b, f s x b = s)
    (gs : List (List α)) (s : σ) : foldPairs f s (List.intercalate [x] gs) = gs.foldl (foldPairs f) s := by
  induction gs generalizing s with
  | nil => rfl
  | cons g gs ih =>
    cases gs with
    | nil => simp
    | cons g' gs =>
      rw [List.intercalate_cons_cons, List.append_assoc, List.singleton_append,
        foldPairs_append hl hr, ih]
      rfl

end Pairs

end Semantics
