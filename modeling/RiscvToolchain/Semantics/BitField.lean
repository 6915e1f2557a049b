import Mathlib.Data.BitVec

/- Fields of a machine word: a mask of the low bits and a shift, as the C macros that
   insert and extract operands take them. A field carries the proof that shifting its
   mask loses no bit, so what is inserted can be read back; the bits a field occupies are
   its `footprint`, and fields are compared by their footprints only. The second half is
   about a list of fields written one after the other. -/
namespace Semantics

structure Field (n : Nat) where
  mask : BitVec n
  shift : Nat
  fits : (mask <<< shift) >>> shift = mask

namespace Field
variable {n : Nat}

def footprint (f : Field n) : BitVec n := f.mask <<< f.shift

def insert (f : Field n) (w v : BitVec n) : BitVec n :=
  (w &&& ~~~f.footprint) ||| ((v &&& f.mask) <<< f.shift)

def extract (f : Field n) (w : BitVec n) : BitVec n := (w >>> f.shift) &&& f.mask

theorem getLsbD_footprint (f : Field n) {i : Nat} (hi : i < n) :
    f.footprint.getLsbD i = (decide (f.shift ≤ i) && f.mask.getLsbD (i - f.shift)) := by
  simp only [footprint, BitVec.getLsbD_shiftLeft, hi, decide_true, Bool.true_and]
  by_cases h : f.shift ≤ i <;> simp [h]

/-- Every bit of the mask lands inside the word. -/
theorem footprint_of_mask (f : Field n) {i : Nat} (h : f.mask.getLsbD i = true) :
    f.footprint.getLsbD (f.shift + i) = true := by
  rw [← f.fits, BitVec.getLsbD_ushiftRight] at h
  exact h

theorem getLsbD_insert (f : Field n) (w v : BitVec n) {i : Nat} (hi : i < n) :
    (f.insert w v).getLsbD i =
      if f.footprint.getLsbD i then v.getLsbD (i - f.shift) else w.getLsbD i := by
  have hs := f.getLsbD_footprint hi
  simp only [insert, BitVec.getLsbD_or, BitVec.getLsbD_and, BitVec.getLsbD_not,
    BitVec.getLsbD_shiftLeft, hi, decide_true, Bool.true_and]
  by_cases hle : f.shift ≤ i
  · have hlt : ¬ i < f.shift := by omega
    simp only [hle, decide_true, Bool.true_and] at hs
    cases hf : f.footprint.getLsbD i <;> simp [hf, hlt, ← hs]
  · have hlt : i < f.shift := by omega
    simp only [hle, decide_false, Bool.false_and] at hs
    simp [hs, hlt]

theorem getLsbD_extract (f : Field n) (w : BitVec n) (i : Nat) :
    (f.extract w).getLsbD i = (w.getLsbD (f.shift + i) && f.mask.getLsbD i) := by
  simp [extract]

/-- The bit of the field that stands at bit `i` of the word. -/
theorem getLsbD_extract_sub (f : Field n) (w : BitVec n) {i : Nat} (hi : i < n)
    (h : f.footprint.getLsbD i = true) : (f.extract w).getLsbD (i - f.shift) = w.getLsbD i := by
  have hs := f.getLsbD_footprint hi
  rw [h, eq_comm, Bool.and_eq_true, decide_eq_true_eq] at hs
  rw [getLsbD_extract, hs.2, Bool.and_true, Nat.add_sub_cancel' hs.1]

theorem extract_insert (f : Field n) (w v : BitVec n) : f.extract (f.insert w v) = v &&& f.mask := by
  apply BitVec.eq_of_getLsbD_eq
  intro i hi
  rw [getLsbD_extract, BitVec.getLsbD_and]
  cases hm : f.mask.getLsbD i with
  | false => simp
  | true =>
    have hfp := f.footprint_of_mask hm
    have hlt : f.shift + i < n := BitVec.lt_of_getLsbD hfp
    rw [getLsbD_insert f w v hlt, hfp, if_pos rfl, Nat.add_sub_cancel_left]

theorem insert_and (f : Field n) (w v k : BitVec n) (h : f.footprint &&& k = 0#n) :
    f.insert w v &&& k = w &&& k := by
  apply BitVec.eq_of_getLsbD_eq
  intro i hi
  have hb : (f.footprint &&& k).getLsbD i = false := by rw [h]; simp
  rw [BitVec.getLsbD_and] at hb
  rw [BitVec.getLsbD_and, BitVec.getLsbD_and, getLsbD_insert f w v hi]
  cases hf : f.footprint.getLsbD i with
  | false => simp
  | true => rw [hf, Bool.true_and] at hb; simp [hb]

/-- What a field reads depends on the bits it occupies only. -/
theorem extract_congr (f : Field n) {w w' : BitVec n} (h : w &&& f.footprint = w' &&& f.footprint) :
    f.extract w = f.extract w' := by
  apply BitVec.eq_of_getLsbD_eq
  intro i hi
  rw [getLsbD_extract, getLsbD_extract]
  cases hm : f.mask.getLsbD i with
  | false => simp
  | true =>
    have hfp := f.footprint_of_mask hm
    have hb := congrArg (fun x : BitVec n => x.getLsbD (f.shift + i)) h
    simpa [hfp] using hb

theorem and_footprint_eq_zero_iff (f : Field n) (w : BitVec n) :
    w &&& f.footprint = 0#n ↔ f.extract w = 0#n := by
  constructor
  · intro h
    have h0 : w &&& f.footprint = 0#n &&& f.footprint := by rw [h, BitVec.zero_and]
    rw [f.extract_congr h0]
    simp [extract]
  · intro h
    apply BitVec.eq_of_getLsbD_eq
    intro i hi
    rw [BitVec.getLsbD_and]
    cases hf : f.footprint.getLsbD i with
    | false => simp
    | true => rw [← f.getLsbD_extract_sub w hi hf, h]; simp

end Field

theorem xor_and_distrib {n : Nat} (x y k : BitVec n) : (x ^^^ y) &&& k = (x &&& k) ^^^ (y &&& k) := by
  apply BitVec.eq_of_getLsbD_eq
  intro i hi
  simp only [BitVec.getLsbD_and, BitVec.getLsbD_xor, Bool.and_xor_distrib_right]

/-! A list of fields, written from the left. -/

section FieldList
variable {n : Nat}

def insertAll : List (Field n × BitVec n) → BitVec n → BitVec n
  | [], w => w
  | (f, v) :: l, w => insertAll l (f.insert w v)

/-- The bits that the fields occupy together. -/
def cover : List (Field n) → BitVec n
  | [] => 0#n
  | f :: l => f.footprint ||| cover l

def Disjoint (l : List (Field n)) : Prop := l.Pairwise fun f g => f.footprint &&& g.footprint = 0#n

instance (l : List (Field n)) : Decidable (Disjoint l) :=
  inferInstanceAs (Decidable (l.Pairwise fun f g => f.footprint &&& g.footprint = 0#n))

theorem insertAll_append (l m : List (Field n × BitVec n)) (w : BitVec n) :
    insertAll (l ++ m) w = insertAll m (insertAll l w) := by
  induction l generalizing w with
  | nil => rfl
  | cons p l ih => exact ih _

theorem insertAll_and (l : List (Field n × BitVec n)) (w k : BitVec n)
    (h : cover (l.map Prod.fst) &&& k = 0#n) : insertAll l w &&& k = w &&& k := by
  induction l generalizing w with
  | nil => rfl
  | cons p l ih =>
    rw [List.map_cons, cover, BitVec.and_or_distrib_right, BitVec.or_eq_zero_iff] at h
    rw [insertAll, ih _ h.2, p.1.insert_and _ _ _ h.1]

theorem footprint_and_cover {f : Field n} {l : List (Field n)}
    (h : ∀ g ∈ l, f.footprint &&& g.footprint = 0#n) : cover l &&& f.footprint = 0#n := by
  induction l with
  | nil => simp [cover]
  | cons g l ih =>
    rw [cover, BitVec.and_or_distrib_right, BitVec.or_eq_zero_iff, BitVec.and_comm]
    exact ⟨h g (by simp), ih fun g' hg' => h g' (by simp [hg'])⟩

/-- Disjoint fields keep what was written to each of them. -/
theorem extract_insertAll {l : List (Field n × BitVec n)} (hd : Disjoint (l.map Prod.fst))
    {f : Field n} {v : BitVec n} (h : (f, v) ∈ l) (w : BitVec n) :
    f.extract (insertAll l w) = v &&& f.mask := by
  induction l generalizing w with
  | nil => cases h
  | cons p l ih =>
    rw [Disjoint, List.map_cons, List.pairwise_cons] at hd
    cases h with
    | head =>
      rw [insertAll, ← f.extract_insert w v]
      exact f.extract_congr (insertAll_and l _ _ (footprint_and_cover hd.1))
    | tail _ h => exact ih hd.2 h _

/-- Writing back what the fields of `w` hold copies the covered bits of `w`. -/
theorem getLsbD_insertAll_extract (l : List (Field n)) (u w : BitVec n) {i : Nat} (hi : i < n) :
    (insertAll (l.map fun f => (f, f.extract w)) u).getLsbD i =
      if (cover l).getLsbD i then w.getLsbD i else u.getLsbD i := by
  induction l generalizing u with
  | nil => simp [cover, insertAll]
  | cons f l ih =>
    rw [List.map_cons, insertAll, ih, f.getLsbD_insert u _ hi, cover, BitVec.getLsbD_or]
    cases hf : f.footprint.getLsbD i with
    | false => simp
    | true => simp [f.getLsbD_extract_sub w hi hf]

theorem insertAll_extract (l : List (Field n)) {w k : BitVec n}
    (h : cover l ||| k = BitVec.allOnes n) (u : BitVec n) (hu : u &&& k = w &&& k) :
    insertAll (l.map fun f => (f, f.extract w)) u = w := by
  apply BitVec.eq_of_getLsbD_eq
  intro i hi
  rw [getLsbD_insertAll_extract l u w hi]
  split
  · rfl
  · next hc =>
    -- a bit that no field covers is one of `k`, where both words agree
    have hk : k.getLsbD i = true := by
      have hb : (cover l ||| k).getLsbD i = true := by rw [h]; simp [hi]
      rw [BitVec.getLsbD_or, Bool.or_eq_true] at hb
      exact hb.resolve_left hc
    have hb := congrArg (fun x : BitVec n => x.getLsbD i) hu
    simpa [hk] using hb

end FieldList

end Semantics
