import Mathlib

/- Python `dict`: a finite map that keeps its keys in the order of their first
   insertion, and a later assignment to a key replaces the value and not the
   position. The entries carry distinct keys by construction. -/
namespace Python

structure Dict (K V : Type) where
  entries : List (K × V)
  nodup : (entries.map Prod.fst).Nodup

namespace Dict
variable {K V : Type}

theorem ext {d e : Dict K V} (h : d.entries = e.entries) : d = e := by
  cases d; cases e; cases h; rfl

def empty : Dict K V := ⟨[], by simp⟩

def keys (d : Dict K V) : List K := d.entries.map Prod.fst

variable [DecidableEq K]

/-- `d[k]`; `none` is the `KeyError`. -/
def get (d : Dict K V) (k : K) : Option V := d.entries.lookup k

/-- The entries after `d[k] = v`. -/
def setEntries (k : K) (v : V) : List (K × V) → List (K × V)
  | [] => [(k, v)]
  | e :: es => if e.1 = k then (k, v) :: es else e :: setEntries k v es

theorem keys_setEntries (k : K) (v : V) (es : List (K × V)) :
    (setEntries k v es).map Prod.fst =
      if k ∈ es.map Prod.fst then es.map Prod.fst else es.map Prod.fst ++ [k] := by
  induction es with
  | nil => simp [setEntries]
  | cons e es ih =>
    by_cases he : e.1 = k
    · simp [setEntries, he]
    · simp only [setEntries, if_neg he, List.map_cons, ih, List.mem_cons, Ne.symm he, false_or]
      split <;> simp

/-- `d[k] = v`. -/
def set (d : Dict K V) (k : K) (v : V) : Dict K V :=
  ⟨setEntries k v d.entries, by
    have hd := d.nodup
    rw [keys_setEntries]
    split
    · exact hd
    · rename_i hk
      simpa [List.nodup_append, hd] using fun a b hab => by
        intro heq
        subst heq
        exact hk (List.mem_map.mpr ⟨_, hab, rfl⟩)⟩

theorem keys_set (d : Dict K V) (k : K) (v : V) :
    (d.set k v).keys = if k ∈ d.keys then d.keys else d.keys ++ [k] :=
  keys_setEntries k v d.entries

theorem mem_keys_set {d : Dict K V} {k k' : K} {v : V} :
    k' ∈ (d.set k v).keys ↔ k' = k ∨ k' ∈ d.keys := by
  rw [keys_set]
  split
  · rename_i h
    constructor
    · exact Or.inr
    · intro h
      rcases h with rfl | h'
      · exact h
      · exact h'
  · rw [List.mem_append, List.mem_singleton, or_comm]

theorem lookup_cons_eq (a k : K) (b : V) (es : List (K × V)) :
    ((a, b) :: es).lookup k = if k = a then some b else es.lookup k := by
  rw [List.lookup_cons]
  by_cases hk : k = a
  · simp [hk]
  · rw [beq_eq_false_iff_ne.mpr hk, if_neg hk]

theorem lookup_setEntries (k k' : K) (v : V) (es : List (K × V)) :
    (setEntries k v es).lookup k' = if k' = k then some v else es.lookup k' := by
  induction es with
  | nil => rw [setEntries, lookup_cons_eq]
  | cons e es ih =>
    obtain ⟨a, b⟩ := e
    simp only [setEntries]
    by_cases ha : a = k
    · subst ha
      rw [if_pos rfl, lookup_cons_eq, lookup_cons_eq]
      split <;> rfl
    · rw [if_neg ha, lookup_cons_eq, lookup_cons_eq, ih]
      by_cases hk : k' = k
      · subst hk; rw [if_neg (Ne.symm ha), if_pos rfl, if_pos rfl]
      · rw [if_neg hk, if_neg hk]

theorem get_set (d : Dict K V) (k k' : K) (v : V) :
    (d.set k v).get k' = if k' = k then some v else d.get k' :=
  lookup_setEntries k k' v d.entries

theorem setEntries_setEntries (k : K) (v w : V) (es : List (K × V)) :
    setEntries k w (setEntries k v es) = setEntries k w es := by
  induction es with
  | nil => simp [setEntries]
  | cons e es ih =>
    by_cases he : e.1 = k
    · simp [setEntries, he]
    · simp [setEntries, he, ih]

/-- The later assignment to a key wins. -/
theorem set_set (d : Dict K V) (k : K) (v w : V) : (d.set k v).set k w = d.set k w :=
  ext (setEntries_setEntries k v w d.entries)

theorem entries_set_ne_nil (d : Dict K V) (k : K) (v : V) : (d.set k v).entries ≠ [] := by
  show setEntries k v d.entries ≠ []
  cases d.entries with
  | nil => simp [setEntries]
  | cons e es =>
    rw [setEntries]
    split <;> simp

theorem get_eq_some_iff {d : Dict K V} {k : K} {v : V} :
    d.get k = some v ↔ (k, v) ∈ d.entries := by
  have hd := d.nodup
  unfold get
  generalize d.entries = es at hd
  induction es with
  | nil => simp
  | cons e es ih =>
    obtain ⟨a, b⟩ := e
    simp only [List.map_cons, List.nodup_cons] at hd
    rw [lookup_cons_eq, List.mem_cons, Prod.mk.injEq]
    by_cases hk : k = a
    · subst hk
      rw [if_pos rfl, Option.some.injEq]
      constructor
      · exact fun h => Or.inl ⟨rfl, h.symm⟩
      · intro h'
        rcases h' with h | h
        · exact h.2.symm
        · exact absurd (List.mem_map.mpr ⟨_, h, rfl⟩) hd.1
    · rw [if_neg hk]
      exact (ih hd.2).trans ⟨Or.inr, fun h => h.resolve_left (fun h' => hk h'.1)⟩

theorem mem_keys_iff {d : Dict K V} {k : K} : k ∈ d.keys ↔ ∃ v, d.get k = some v := by
  simp only [get_eq_some_iff, keys, List.mem_map]
  constructor
  · intro h'
    obtain ⟨⟨a, b⟩, h, rfl⟩ := h'
    exact ⟨b, h⟩
  · intro h'
    obtain ⟨v, h⟩ := h'
    exact ⟨(k, v), h, rfl⟩

/-- `del d[k]`, and nothing where the key is missing. -/
def erase (d : Dict K V) (k : K) : Dict K V :=
  ⟨d.entries.filter (fun e => e.1 ≠ k), d.nodup.sublist (List.filter_sublist.map Prod.fst)⟩

theorem get_erase (d : Dict K V) (k k' : K) :
    (d.erase k).get k' = if k' = k then none else d.get k' := by
  have hmem : ∀ v, (d.erase k).get k' = some v ↔ d.get k' = some v ∧ k' ≠ k := by
    intro v
    rw [get_eq_some_iff, get_eq_some_iff, erase, List.mem_filter]
    simp
  split
  · rename_i hk
    rw [Option.eq_none_iff_forall_ne_some]
    intro v hv
    exact ((hmem v).mp hv).2 hk
  · rename_i hk
    apply Option.ext
    intro v
    rw [hmem v]
    exact ⟨fun h => h.1, fun h => ⟨h, hk⟩⟩

/-- The dictionary after a list of assignments. -/
def assign (d : Dict K V) (es : List (K × V)) : Dict K V := es.foldl (fun d e => d.set e.1 e.2) d

@[simp] theorem assign_nil (d : Dict K V) : d.assign [] = d := rfl

@[simp] theorem assign_cons (d : Dict K V) (e : K × V) (es : List (K × V)) :
    d.assign (e :: es) = (d.set e.1 e.2).assign es := rfl

/-- The value of a key is its last assignment. -/
theorem get_assign (d : Dict K V) (es : List (K × V)) (k : K) :
    (d.assign es).get k = (es.reverse.lookup k).or (d.get k) := by
  induction es generalizing d with
  | nil => simp
  | cons e es ih =>
    obtain ⟨a, b⟩ := e
    rw [assign_cons, ih, get_set, List.reverse_cons, List.lookup_append, lookup_cons_eq]
    by_cases hk : k = a <;> simp [hk]

/-- The keys stand in the order of their first assignment. -/
theorem keys_assign (d : Dict K V) (es : List (K × V)) :
    (d.assign es).keys =
      d.keys ++ ((es.map Prod.fst).filter (fun k => decide (k ∉ d.keys))).eraseDups := by
  induction es generalizing d with
  | nil => simp
  | cons e es ih =>
    rw [assign_cons, ih, keys_set, List.map_cons, List.filter_cons]
    by_cases hk : e.1 ∈ d.keys
    · simp [hk]
    · simp only [hk, if_false, not_false_eq_true, decide_true, if_true, List.eraseDups_cons,
        List.filter_filter, List.append_assoc, List.singleton_append]
      congr 3
      apply List.filter_congr
      intro x _
      by_cases hx : x = e.1 <;> simp [hx, hk]

/-- Assignments to new and different keys add these keys in their order. -/
theorem keys_assign_of_nodup {d : Dict K V} {es : List (K × V)}
    (h : (d.keys ++ es.map Prod.fst).Nodup) : (d.assign es).keys = d.keys ++ es.map Prod.fst := by
  induction es generalizing d with
  | nil => simp
  | cons e es ih =>
    have hnew : e.1 ∉ d.keys := by
      intro hmem
      exact (List.nodup_append.mp h).2.2 e.1 hmem e.1 (by simp) rfl
    have hkeys : (d.set e.1 e.2).keys = d.keys ++ [e.1] := by rw [keys_set, if_neg hnew]
    have hcons : d.keys ++ (e :: es).map Prod.fst = (d.set e.1 e.2).keys ++ es.map Prod.fst := by
      rw [hkeys, List.map_cons, List.append_assoc, List.singleton_append]
    rw [hcons] at h ⊢
    exact ih h

theorem length_keys_assign_le (d : Dict K V) (es : List (K × V)) :
    (d.assign es).keys.length ≤ d.keys.length + es.length := by
  induction es generalizing d with
  | nil => simp
  | cons e es ih =>
    have hset : (d.set e.1 e.2).keys.length ≤ d.keys.length + 1 := by
      rw [keys_set]
      split <;> simp
    have hrest := ih (d.set e.1 e.2)
    rw [assign_cons, List.length_cons]
    omega

/-- What the last assignment to a key is: one with no later assignment to the same key. -/
theorem lookup_reverse_iff {es : List (K × V)} {k : K} {v : V} :
    es.reverse.lookup k = some v ↔
      ∃ before after, es = before ++ (k, v) :: after ∧ k ∉ after.map Prod.fst := by
  induction es with
  | nil => simp
  | cons e es ih =>
    obtain ⟨a, b⟩ := e
    rw [List.reverse_cons, List.lookup_append]
    refine ⟨?_, ?_⟩
    · intro h
      cases hl : es.reverse.lookup k with
      | some w =>
        rw [hl, Option.some_or] at h
        cases h
        obtain ⟨before, after, hes, hk⟩ := ih.mp hl
        exact ⟨(a, b) :: before, after, by rw [hes]; rfl, hk⟩
      | none =>
        rw [hl, Option.none_or, lookup_cons_eq] at h
        split at h
        · rename_i hk
          cases h
          subst hk
          refine ⟨[], es, rfl, ?_⟩
          intro hmem
          obtain ⟨⟨x, w⟩, hx, hxk⟩ := List.mem_map.mp hmem
          have hnone := List.lookup_eq_none_iff.mp hl (x, w) (List.mem_reverse.mpr hx)
          exact absurd hxk.symm (by simpa using hnone)
        · cases h
    · intro ⟨before, after, hes, hk⟩
      cases before with
      | nil =>
        obtain ⟨he, rfl⟩ := List.cons.inj hes
        cases he
        have hnone : es.reverse.lookup k = none := by
          rw [List.lookup_eq_none_iff]
          intro p hp
          have hne : k ≠ p.1 := fun hkp =>
            hk (List.mem_map.mpr ⟨p, List.mem_reverse.mp hp, hkp.symm⟩)
          simpa using hne
        rw [hnone, Option.none_or, lookup_cons_eq, if_pos rfl]
      | cons e' before =>
        obtain ⟨-, hes⟩ := List.cons.inj hes
        rw [ih.mpr ⟨before, after, hes, hk⟩, Option.some_or]

theorem mem_entries_assign_empty {es : List (K × V)} {k : K} {v : V} :
    (k, v) ∈ (empty.assign es).entries ↔
      ∃ before after, es = before ++ (k, v) :: after ∧ k ∉ after.map Prod.fst := by
  rw [← get_eq_some_iff, get_assign, ← lookup_reverse_iff]
  simp [empty, get]

end Dict
end Python
