import Mathlib.Data.List.Basic

/- The bypass from a load to the address of the next access, and its own comment.

   Correspondence (C ↔ Lean):
     an expression                      ↔ `Rtx`; a code other than REG, MEM and the
                                          constants is `expr`, with its operands
     `PATTERN`, the members of PARALLEL ↔ `Pattern`, `Member`
     `single_set`                       ↔ `SingleSet`, any function that does what its
                                          documentation says (the notes it reads are not
                                          modelled)
     `reg_mentioned_p`                  ↔ `regMentionedP`, by register number
     `riscv_load_to_agu_bypass_p_1`     ↔ `riscvLoadToAguBypassP1`
     `riscv_load_to_agu_bypass_p`       ↔ `riscvLoadToAguBypassP`, with the mode test
                                          in its final form
     a dereference of NULL, a failed    ↔ `Stop`
     `gcc_assert`
   The comment is about what the insns do (`LoadFeedsAddress`), the function looks at one
   SET of each and at modes and mentions in it. Where the two come to the same is
   `BypassExact`. -/
namespace Gcc.AguBypass

inductive MachineMode where
  | qi
  | hi
  | si
  | di
  | sf
  | df
  | other
  deriving DecidableEq, Repr

inductive Rtx where
  | reg (m : MachineMode) (regno : Nat)
  | mem (m : MachineMode) (addr : Rtx)
  | const
  | expr (m : MachineMode) (args : List Rtx)

/-- A SET: `SET_DEST` and `SET_SRC`. -/
structure SetRtx where
  dest : Rtx
  src : Rtx

inductive Member where
  | set (s : SetRtx)
  | clobber (x : Rtx)
  | use (x : Rtx)
  | other (x : Rtx)

inductive Pattern where
  | set (s : SetRtx)
  | parallel (members : List Member)
  | other (x : Rtx)

/-- An insn, with the registers its REG_UNUSED notes name. -/
structure Insn where
  pattern : Pattern
  regUnused : List Nat

def Rtx.memP : Rtx → Bool
  | .mem _ _ => true
  | _ => false

def Rtx.regP : Rtx → Bool
  | .reg _ _ => true
  | _ => false

def Rtx.mode : Rtx → MachineMode
  | .reg m _ => m
  | .mem m _ => m
  | .const => .other
  | .expr m _ => m

def xmode (target64bit : Bool) : MachineMode := if target64bit then .di else .si

def memberSets (members : List Member) : List SetRtx :=
  members.filterMap fun
    | .set s => some s
    | _ => none

def Pattern.sets : Pattern → List SetRtx
  | .set s => [s]
  | .parallel members => memberSets members
  | .other _ => []

mutual
/-- Register `r` appears somewhere within the expression. -/
def mentions (r : Nat) : Rtx → Bool
  | .reg _ regno => regno == r
  | .mem _ addr => mentions r addr
  | .const => false
  | .expr _ args => anyMentions r args
def anyMentions (r : Nat) : List Rtx → Bool
  | [] => false
  | x :: xs => mentions r x || anyMentions r xs
end

/-- Register `r` is read in a destination: not where it is the register that is written. -/
def destReads (r : Nat) : Rtx → Bool
  | .reg _ _ => false
  | x => mentions r x

def Member.reads (r : Nat) : Member → Bool
  | .set s => mentions r s.src || destReads r s.dest
  | .clobber x => destReads r x
  | .use x => mentions r x
  | .other x => mentions r x

def Pattern.reads (r : Nat) : Pattern → Bool
  | .set s => (Member.set s).reads r
  | .parallel members => members.any (·.reads r)
  | .other x => mentions r x

def regMentionedP (reg x : Rtx) : Bool :=
  match reg with
  | .reg _ r => mentions r x
  | _ => false

mutual
/-- Register `r` appears in the address of a memory operand of the expression. -/
def inAddress (r : Nat) : Rtx → Bool
  | .reg _ _ => false
  | .mem _ addr => mentions r addr
  | .const => false
  | .expr _ args => anyInAddress r args
def anyInAddress (r : Nat) : List Rtx → Bool
  | [] => false
  | x :: xs => inAddress r x || anyInAddress r xs
end

/-- `single_set`: a SET of the insn; the SET that is the pattern, or that stands in a PARALLEL
    among CLOBBERs and USEs alone. -/
structure SingleSet where
  get : Insn → Option SetRtx
  mem_sets : ∀ i s, get i = some s → s ∈ i.pattern.sets
  of_set : ∀ i s, i.pattern = .set s → get i = some s
  of_parallel : ∀ i s members, i.pattern = .parallel members → memberSets members = [s] →
    (∀ x, Member.other x ∉ members) → get i = some s

/-! The code. -/

inductive Stop where
  | nullDereference
  | assertionFailed
  deriving DecidableEq, Repr

def firstSet : List Member → Except Stop (Option SetRtx)
  | [] => .ok none
  | .clobber _ :: members => firstSet members
  | .use _ :: members => firstSet members
  | .set s :: _ => .ok (some s)
  | .other _ :: _ => .error .assertionFailed

def riscvLoadToAguBypassP1 (singleSet : SingleSet) (insn : Insn) : Except Stop (Option SetRtx) :=
  match singleSet.get insn with
  | some s => .ok (some s)
  | none =>
    match insn.pattern with
    | .parallel members => firstSet members
    | _ => .ok none

def deref (set : Option SetRtx) : Except Stop SetRtx :=
  match set with
  | some s => .ok s
  | none => .error .nullDereference

/-- `(mode == DImode && TARGET_64BIT) || (mode == SImode && !TARGET_64BIT)`. -/
def xlenMode (target64bit : Bool) (mode : MachineMode) : Bool :=
  (mode = .di && target64bit) || (mode = .si && !target64bit)

def riscvLoadToAguBypassP (singleSet : SingleSet) (target64bit : Bool) (outInsn inInsn : Insn) :
    Except Stop Bool := do
  let outSet ← riscvLoadToAguBypassP1 singleSet outInsn
  let inSet ← riscvLoadToAguBypassP1 singleSet inInsn
  let inSet ← deref inSet
  if !inSet.dest.memP && !inSet.dest.regP then
    return false
  let outSet ← deref outSet
  let mode := outSet.dest.mode
  if !outSet.dest.regP || !xlenMode target64bit mode then
    return false
  if inSet.dest.regP then
    return regMentionedP outSet.dest inSet.src
  else
    return regMentionedP outSet.dest inSet.dest

/-! The comment. -/

/-- OUT loads an XLEN-bit memory operand into `r`. -/
def Loads (target64bit : Bool) (outInsn : Insn) (r : Nat) : Prop :=
  ∃ s ∈ outInsn.pattern.sets, (∃ m, s.dest = .reg m r) ∧ ∃ a, s.src = .mem (xmode target64bit) a

/-- What an insn loads from or stores to, if it is memory: a CLOBBER or a USE does neither. -/
def Member.operands : Member → List Rtx
  | .set s => [s.src, s.dest]
  | .other x => [x]
  | _ => []

def Pattern.operands : Pattern → List Rtx
  | .set s => (Member.set s).operands
  | .parallel members => members.flatMap Member.operands
  | .other x => (Member.other x).operands

/-- `r` is used in the address of a memory operand that IN loads from or stores to. -/
def Addresses (inInsn : Insn) (r : Nat) : Prop :=
  ∃ x ∈ inInsn.pattern.operands, inAddress r x = true

def LoadFeedsAddress (target64bit : Bool) (outInsn inInsn : Insn) : Prop :=
  ∃ r, Loads target64bit outInsn r ∧ Addresses inInsn r

/-- The function returns, inspecting no missing SET, and says what the comment says. -/
def AgreesWithComment (singleSet : SingleSet) (target64bit : Bool) (outInsn inInsn : Insn) :
    Prop :=
  ∃ b, riscvLoadToAguBypassP singleSet target64bit outInsn inInsn = .ok b ∧
    (b = true ↔ LoadFeedsAddress target64bit outInsn inInsn)

/-! Where they agree. -/

/-- The SET of the insn that the function looks at. -/
def Picks (singleSet : SingleSet) (insn : Insn) (s : SetRtx) : Prop :=
  riscvLoadToAguBypassP1 singleSet insn = .ok (some s)

/-- The SET of OUT writes all of a register that is mentioned in the source of a SET to a
    register, or in the destination of a SET to memory. -/
def Feeds (target64bit : Bool) (outSet inSet : SetRtx) : Prop :=
  ∃ r, outSet.dest = .reg (xmode target64bit) r ∧
    ((inSet.dest.regP = true ∧ mentions r inSet.src = true) ∨
      (inSet.dest.memP = true ∧ mentions r inSet.dest = true))

structure BypassExact (singleSet : SingleSet) (target64bit : Bool) (outInsn inInsn : Insn)
    (outSet inSet : SetRtx) : Prop where
  picksOut : Picks singleSet outInsn outSet
  picksIn : Picks singleSet inInsn inSet
  /-- no extending load, no other result, and no use but in an address -/
  noFalseAlarm : Feeds target64bit outSet inSet → LoadFeedsAddress target64bit outInsn inInsn
  /-- no load in another SET of OUT, and no address in another part of IN -/
  noMiss : LoadFeedsAddress target64bit outInsn inInsn → Feeds target64bit outSet inSet

section Exact
variable {singleSet : SingleSet} {target64bit : Bool} {outInsn inInsn : Insn}
  {outSet inSet : SetRtx}

theorem xlenMode_iff (m : MachineMode) : xlenMode target64bit m = true ↔ m = xmode target64bit := by
  cases target64bit <;> simp [xlenMode, xmode]

/-- What the function returns of the two SETs. -/
def bypassOfSets (target64bit : Bool) (outSet inSet : SetRtx) : Bool :=
  (inSet.dest.memP || inSet.dest.regP) &&
    (outSet.dest.regP && xlenMode target64bit outSet.dest.mode) &&
    if inSet.dest.regP then regMentionedP outSet.dest inSet.src
    else regMentionedP outSet.dest inSet.dest

theorem bypass_of_picks (ho : Picks singleSet outInsn outSet) (hi : Picks singleSet inInsn inSet) :
    riscvLoadToAguBypassP singleSet target64bit outInsn inInsn =
      .ok (bypassOfSets target64bit outSet inSet) := by
  rw [Picks] at ho hi
  rw [riscvLoadToAguBypassP, ho, hi, bypassOfSets]
  show (if _ then _ else (if _ then _ else if _ then _ else _)) = _
  cases inSet.dest.memP <;> cases inSet.dest.regP <;> cases outSet.dest.regP <;>
    cases xlenMode target64bit outSet.dest.mode <;> rfl

theorem bypassOfSets_iff (outSet inSet : SetRtx) :
    bypassOfSets target64bit outSet inSet = true ↔ Feeds target64bit outSet inSet := by
  obtain ⟨outDest, outSrc⟩ := outSet
  obtain ⟨inDest, inSrc⟩ := inSet
  cases outDest with
  | reg m r =>
    cases inDest with
    | reg m' r' => simp [bypassOfSets, Feeds, xlenMode_iff, Rtx.memP, Rtx.regP, Rtx.mode, regMentionedP]
    | mem m' addr => simp [bypassOfSets, Feeds, xlenMode_iff, Rtx.memP, Rtx.regP, Rtx.mode, regMentionedP]
    | const => simp [bypassOfSets, Feeds, Rtx.memP, Rtx.regP]
    | expr m' args => simp [bypassOfSets, Feeds, Rtx.memP, Rtx.regP]
  | mem m addr => simp [bypassOfSets, Feeds, Rtx.regP]
  | const => simp [bypassOfSets, Feeds, Rtx.regP]
  | expr m args => simp [bypassOfSets, Feeds, Rtx.regP]

/-! The SETs that are found. -/

theorem sets_of_firstSet_none {members : List Member} (h : firstSet members = .ok none) :
    memberSets members = [] := by
  induction members with
  | nil => rfl
  | cons m members ih =>
    cases m with
    | set s => cases h
    | clobber x => exact ih h
    | use x => exact ih h
    | other x => cases h

/-- An insn that sets something and is not aborted on has a SET to look at. -/
theorem picks_of_ok {insn : Insn} {o : Option SetRtx}
    (h : riscvLoadToAguBypassP1 singleSet insn = .ok o) (hne : insn.pattern.sets ≠ []) :
    ∃ s, Picks singleSet insn s := by
  cases o with
  | some s => exact ⟨s, h⟩
  | none =>
    rw [riscvLoadToAguBypassP1] at h
    cases hs : singleSet.get insn with
    | some s =>
      rw [hs] at h
      cases h
    | none =>
      rw [hs] at h
      cases hp : insn.pattern with
      | set s =>
        rw [singleSet.of_set insn s hp] at hs
        cases hs
      | parallel members =>
        rw [hp] at h hne
        exact absurd (sets_of_firstSet_none h) hne
      | other x =>
        rw [hp] at hne
        exact absurd rfl hne

/-- The function returns only where both are found. -/
theorem picks_of_bypass {b : Bool} (hne : outInsn.pattern.sets ≠ [])
    (h : riscvLoadToAguBypassP singleSet target64bit outInsn inInsn = .ok b) :
    ∃ outSet inSet, Picks singleSet outInsn outSet ∧ Picks singleSet inInsn inSet := by
  rw [riscvLoadToAguBypassP] at h
  cases ho : riscvLoadToAguBypassP1 singleSet outInsn with
  | error e =>
    rw [ho] at h
    cases h
  | ok o =>
    cases hi : riscvLoadToAguBypassP1 singleSet inInsn with
    | error e =>
      rw [ho, hi] at h
      cases h
    | ok i =>
      cases i with
      | none =>
        rw [ho, hi] at h
        cases h
      | some inSet =>
        obtain ⟨outSet, hout⟩ := picks_of_ok ho hne
        exact ⟨outSet, inSet, hout, hi⟩

end Exact

/-- OUT sets a register that IN reads. -/
def SetsRead (outInsn inInsn : Insn) : Prop :=
  ∃ s ∈ outInsn.pattern.sets, ∃ m r, s.dest = .reg m r ∧ inInsn.pattern.reads r = true

mutual
theorem mentions_of_inAddress (r : Nat) : ∀ x, inAddress r x = true → mentions r x = true
  | .reg _ _, h => nomatch h
  | .mem _ _, h => h
  | .const, h => nomatch h
  | .expr _ args, h => anyMentions_of_anyInAddress r args h
theorem anyMentions_of_anyInAddress (r : Nat) : ∀ xs, anyInAddress r xs = true →
    anyMentions r xs = true
  | [], h => nomatch h
  | x :: xs, h => by
    rw [anyInAddress, Bool.or_eq_true] at h
    rw [anyMentions, Bool.or_eq_true]
    exact h.imp (mentions_of_inAddress r x) (anyMentions_of_anyInAddress r xs)
end

/-- A SET that loads: to a register, which is read in addresses only. A SET that stores: to
    memory, and what is stored is no memory operand. -/
def Accesses (r : Nat) (s : SetRtx) : Prop :=
  (s.dest.regP = true ∧ (mentions r s.src = true → inAddress r s.src = true)) ∨
    (s.dest.memP = true ∧ inAddress r s.src = false)

theorem not_memP_of_regP {x : Rtx} (h : x.regP = true) : x.memP = false := by
  cases x with
  | reg m r => rfl
  | mem m addr => cases h
  | const => cases h
  | expr m args => cases h

theorem inAddress_of_regP {r : Nat} {x : Rtx} (h : x.regP = true) : inAddress r x = false := by
  cases x with
  | reg m r => rfl
  | mem m addr => cases h
  | const => cases h
  | expr m args => cases h

theorem inAddress_eq_mentions_of_memP {r : Nat} {x : Rtx} (h : x.memP = true) :
    inAddress r x = mentions r x := by
  cases x with
  | mem m addr => rfl
  | reg m r => cases h
  | const => cases h
  | expr m args => cases h

/-- After a plain load of a whole register, in an insn of one SET. -/
theorem bypassExact_of_load (singleSet : SingleSet) (target64bit : Bool) {outInsn inInsn : Insn}
    {r : Nat} {a : Rtx} {inSet : SetRtx} (hout : outInsn.pattern =
      .set ⟨.reg (xmode target64bit) r, .mem (xmode target64bit) a⟩)
    (hin : inInsn.pattern = .set inSet) (haccess : Accesses r inSet) :
    BypassExact singleSet target64bit outInsn inInsn
      ⟨.reg (xmode target64bit) r, .mem (xmode target64bit) a⟩ inSet := by
  have hpick : ∀ {insn : Insn} {s : SetRtx}, insn.pattern = .set s → Picks singleSet insn s := by
    intro insn s hs
    rw [Picks, riscvLoadToAguBypassP1, singleSet.of_set insn s hs]
  have hloads : ∀ r', Loads target64bit outInsn r' ↔ r' = r := by
    intro r'
    rw [Loads, hout]
    simp [Pattern.sets, eq_comm]
  have haddresses : Addresses inInsn r ↔
      inAddress r inSet.src = true ∨ inAddress r inSet.dest = true := by
    rw [Addresses, hin]
    simp [Pattern.operands, Member.operands]
  have hspec : LoadFeedsAddress target64bit outInsn inInsn ↔ Addresses inInsn r := by
    simp only [LoadFeedsAddress, hloads, exists_eq_left]
  have hfeeds : Feeds target64bit ⟨.reg (xmode target64bit) r, .mem (xmode target64bit) a⟩ inSet ↔
      Addresses inInsn r := by
    rw [haddresses, Feeds]
    simp only [Rtx.reg.injEq, true_and, exists_eq_left']
    -- a load of the register's address, or a store to it
    rcases haccess with ⟨hdest, hsrc⟩ | ⟨hdest, hsrc⟩
    · have hno := not_memP_of_regP hdest
      rw [inAddress_of_regP hdest, hno]
      simp only [hdest, true_and, Bool.false_eq_true, false_and, or_false]
      exact ⟨hsrc, mentions_of_inAddress r _⟩
    · have hno : inSet.dest.regP = false := by
        rw [← Bool.not_eq_true]
        intro hreg
        rw [not_memP_of_regP hreg] at hdest
        cases hdest
      rw [inAddress_eq_mentions_of_memP hdest, hsrc, hno]
      simp only [hdest, true_and, Bool.false_eq_true, false_and, false_or]
  exact ⟨hpick hout, hpick hin, fun h => hspec.mpr (hfeeds.mp h), fun h => hfeeds.mpr (hspec.mp h)⟩

/-! Two insns. -/

def Member.isOther : Member → Bool
  | .other _ => true
  | _ => false

def plainSet : Pattern → Option SetRtx
  | .set s => some s
  | .parallel members =>
    if members.any Member.isOther then none
    else match memberSets members with
      | [s] => some s
      | _ => none
  | .other _ => none

/-- `single_set` of an insn without notes. -/
def plainSingleSet : SingleSet where
  get i := plainSet i.pattern
  mem_sets := by
    intro i s h
    cases hp : i.pattern with
    | set s' =>
      rw [hp] at h
      exact List.mem_singleton.mpr (Option.some.inj h).symm
    | parallel members =>
      rw [hp, plainSet] at h
      rw [Pattern.sets]
      split at h
      · cases h
      · split at h
        · next s' hs =>
          rw [hs]
          exact List.mem_singleton.mpr (Option.some.inj h).symm
        · cases h
    | other x =>
      rw [hp] at h
      cases h
  of_set := by
    intro i s h
    rw [h, plainSet]
  of_parallel := by
    intro i s members hp hs hother
    have hany : ¬ members.any Member.isOther = true := by
      intro h
      obtain ⟨m, hm, hmo⟩ := List.any_eq_true.mp h
      cases m with
      | other x => exact hother x hm
      | set s => cases hmo
      | clobber x => cases hmo
      | use x => cases hmo
    rw [hp, plainSet, if_neg hany, hs]

def loadInsn (m : MachineMode) (src : Rtx) : Insn := ⟨.set ⟨.reg m 10, src⟩, []⟩

/-- `(set (reg:DI 11) (mem:DI (reg:DI 10)))` -/
def nextLoad : Insn := ⟨.set ⟨.reg .di 11, .mem .di (.reg .di 10)⟩, []⟩

end Gcc.AguBypass
