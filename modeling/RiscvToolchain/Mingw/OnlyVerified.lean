import RiscvToolchain.Mingw.Prepare

/- The cache only ever hands out a verified tree (`prepare_onlyVerified`). The
   invariant over interrupted runs is `Inv`: what stands at `install_root` is the
   complete extraction of an archive with the pinned hash, or has no regular file
   `.complete` (an archive may bring a `.complete` of its own that is none, and the
   removal of such a tree may stop half-way). From the removal of `install_root` to
   the rename nothing stands there (`NoRoot`), whatever else fails. -/
namespace Mingw
open Python Posix Semantics

section Commands
variable {P Q E : Work → Prop}

theorem command_on {effect : Fate → Work → Option Work} {stopped : Fate → Work → Work}
    (hdone : ∀ f w w', P w → effect f w = some w' → Q w')
    (hstop : ∀ f w, P w → E (stopped f w)) :
    On World.work P (command effect stopped) (fun _ => Q) E := by
  intro w hw
  rw [command]
  dsimp only
  cases (w.plan 0).event with
  | completes =>
    cases he : effect (w.plan 0) w.work with
    | none => exact hstop (w.plan 0) w.work hw
    | some work => exact hdone (w.plan 0) w.work work hw he
  | fails => exact hstop (w.plan 0) w.work hw
  | killed => exact hstop (w.plan 0) w.work hw

theorem work_on : On World.work P work (fun r w => r = w ∧ P w) E := fun _ hw => ⟨rfl, hw⟩

theorem echo_on (line : Str) : On World.work P (echo line) (fun _ => P) E := fun _ hw => hw

theorem reads_on (hE : ∀ w, P w → E w) : On World.work P reads (fun _ => P) E := by
  refine command_on ?_ (fun _ => hE)
  intro f w w' h he
  cases he
  exact h

theorem succeeds_on {x : M Unit} {F : Work → Prop} (hx : On World.work P x (fun _ => Q) F)
    (hF : ∀ w, F w → E w) :
    On World.work P (succeeds x) (fun b w => (b = true ∧ Q w) ∨ (b = false ∧ F w)) E := by
  refine On.handle F (On.bind hx fun _ => On.pure fun w h => Or.inl ⟨rfl, h⟩) ?_
  intro e
  cases e with
  | status n => exact On.pure fun w h => Or.inr ⟨rfl, h⟩
  | killed => exact On.raise hF

theorem onlyIf_on {c : Bool} {x : M Unit} (hx : c = true → On World.work P x (fun _ => Q) E)
    (hskip : c = false → ∀ w, P w → Q w) : On World.work P (onlyIf c x) (fun _ => Q) E := by
  cases c with
  | true => exact hx rfl
  | false => exact On.pure (hskip rfl)

end Commands

section Verified
variable (sha256 : Bytes → Str) (archiveOk : Bytes → Bool) (extract : Bytes → Option Tree)
  (a : Arguments)

/-- Every tool of `validate_root` is executable. -/
def Valid (t : Tree) : Prop := ∀ tool ∈ tools, t.isExecutable tool.2 = true

/-- The complete extraction of an archive with the pinned hash, with the marker and with every
    tool executable. -/
def Complete (t : Tree) : Prop :=
  ∃ bytes u, sha256 bytes = a.expectedSha256 ∧ extract bytes = some u ∧
    u.touch marker = some t ∧ Valid t

/-- What holds of the work directory between any two commands of any run. -/
def Inv (w : Work) : Prop :=
  ∀ t, w.installRoot = some t →
    w.downloads = true ∧ (Complete sha256 extract a t ∨ t.isFile marker = false)

/-- Nothing is installed. -/
def NoRoot (w : Work) : Prop := w.downloads = true ∧ w.installRoot = none

theorem NoRoot.inv {w : Work} (h : NoRoot w) : Inv sha256 extract a w := by
  intro t ht
  rw [h.2] at ht
  cases ht

/-! The tests. -/

theorem validateRoot_on {P E : Work → Prop} (root : Str) (t : Tree) :
    ∀ l : List (Str × List Component),
      On World.work P (validateRoot root t l)
        (fun b w => (b = true ↔ ∀ tool ∈ l, t.isExecutable tool.2 = true) ∧ P w) E
  | [] => On.pure fun w h => ⟨by simp, h⟩
  | tool :: rest => by
    refine On.ite (fun hx => ?_) (fun hx => ?_)
    · refine On.conseq (validateRoot_on root t rest) (fun _ h => h) ?_ (fun _ h => h)
      intro b w h
      refine ⟨h.1.trans ?_, h.2⟩
      simp [hx]
    · refine On.bind (echo_on _) fun _ => On.pure fun w h => ⟨?_, h⟩
      simp [hx]

/-- The check at the start of `main` says whether a marked and valid tree is installed. -/
theorem installed_on {P E : Work → Prop} :
    On World.work P (installed a)
      (fun b w => (b = true ↔ ∃ t, w.installRoot = some t ∧ t.isFile marker = true ∧ Valid t) ∧
        P w) E := by
  refine On.bind work_on fun r => ?_
  cases hr : r.installRoot with
  | none =>
    refine On.pure fun w h => ⟨?_, h.2⟩
    rw [← h.1, hr]
    simp
  | some t =>
    refine On.ite (fun hf => ?_) (fun hf => ?_)
    · refine On.conseq (validateRoot_on a.installRoot t tools) (fun _ h => h) ?_ (fun _ h => h)
      intro b w h'
      obtain ⟨hb, rfl, h⟩ := h'
      refine ⟨hb.trans ?_, h⟩
      rw [hr]
      simp [Valid, hf]
    · refine On.pure fun w h => ⟨?_, h.2⟩
      rw [← h.1, hr]
      simp [hf]

theorem verifyArchive_on {P E : Work → Prop} (hE : ∀ w, P w → E w) (archive expected : Str) :
    On World.work P (verifyArchive sha256 archive expected)
      (fun b w => (b = true → ∃ bytes, sha256 bytes = expected ∧ w.archive = some bytes) ∧ P w)
      E := by
  refine On.bind (Q := fun actual? w => (∀ actual, actual? = some actual →
    ∃ bytes, sha256 bytes = actual ∧ w.archive = some bytes) ∧ P w) ?_ (fun actual? => ?_)
  · refine On.bind (succeeds_on (reads_on fun _ h => h) hE) (fun read => ?_)
    refine On.bind work_on fun r => On.pure ?_
    intro w h'
    obtain ⟨rfl, h⟩ := h'
    refine ⟨?_, ?_⟩
    · intro actual hactual
      cases read with
      | false => cases hactual
      | true =>
        obtain ⟨bytes, hbytes, hsha⟩ := Option.map_eq_some_iff.mp hactual
        exact ⟨bytes, hsha, hbytes⟩
    · rcases h with h | h
      · exact h.2
      · exact h.2
  · cases actual? with
    | none => exact On.pure fun w h => ⟨by simp, h.2⟩
    | some actual =>
      refine On.ite (fun heq => ?_) (fun _ => ?_)
      · refine On.pure fun w h => ⟨fun _ => ?_, h.2⟩
        subst heq
        exact h.1 actual rfl
      · refine On.bind (echo_on _) fun _ => On.bind (echo_on _) fun _ =>
          On.bind (echo_on _) fun _ => On.pure fun w h => ⟨by simp, h.2⟩

/-! Nothing between the removal and the rename installs anything. -/

/-- A command that leaves `install_root` and the downloads directory alone. -/
theorem command_noRoot {effect : Fate → Work → Option Work} {stopped : Fate → Work → Work}
    (hdone : ∀ f w w', effect f w = some w' →
      w'.downloads = w.downloads ∧ w'.installRoot = w.installRoot)
    (hstop : ∀ f w, (stopped f w).downloads = w.downloads ∧
      (stopped f w).installRoot = w.installRoot) :
    On World.work NoRoot (command effect stopped) (fun _ => NoRoot) NoRoot := by
  refine command_on ?_ ?_
  · intro f w w' h he
    obtain ⟨h₁, h₂⟩ := hdone f w w' he
    exact ⟨h₁.trans h.1, h₂.trans h.2⟩
  · intro f w h
    obtain ⟨h₁, h₂⟩ := hstop f w
    exact ⟨h₁.trans h.1, h₂.trans h.2⟩

theorem rmPart_noRoot : On World.work NoRoot rmPart (fun _ => NoRoot) NoRoot :=
  command_noRoot (fun _ _ _ he => by cases he; exact ⟨rfl, rfl⟩) (fun _ _ => ⟨rfl, rfl⟩)

theorem rmArchive_noRoot : On World.work NoRoot rmArchive (fun _ => NoRoot) NoRoot :=
  command_noRoot (fun _ _ _ he => by cases he; exact ⟨rfl, rfl⟩) (fun _ _ => ⟨rfl, rfl⟩)

theorem curl_noRoot : On World.work NoRoot curl (fun _ => NoRoot) NoRoot := by
  unfold curl
  exact command_noRoot (fun _ _ _ he => by cases he; exact ⟨rfl, rfl⟩) (fun _ _ => ⟨rfl, rfl⟩)

theorem mvPart_noRoot : On World.work NoRoot mvPart (fun _ => NoRoot) NoRoot := by
  refine command_noRoot ?_ (fun _ _ => ⟨rfl, rfl⟩)
  intro _ w w' he
  obtain ⟨bytes, -, rfl⟩ := Option.map_eq_some_iff.mp he
  exact ⟨rfl, rfl⟩

theorem fetchMirrors_noRoot (destination : Str) : ∀ urls : List Str,
    On World.work NoRoot (fetchMirrors archiveOk destination urls) (fun _ => NoRoot) NoRoot
  | [] => On.bind (echo_on _) fun _ => On.raise fun _ h => h
  | url :: rest => by
    refine On.bind (echo_on _) fun _ => ?_
    refine On.bind (Q := fun _ => NoRoot) ?_ fun got => ?_
    · refine On.conseq (succeeds_on curl_noRoot fun _ h => h) (fun _ h => h) ?_ (fun _ h => h)
      intro b w h
      rcases h with h | h
      · exact h.2
      · exact h.2
    · refine On.bind (Q := fun _ => NoRoot)
        (On.bind work_on fun r => On.pure fun w h => h.2) fun ok => ?_
      refine On.ite (fun _ => mvPart_noRoot) (fun _ => ?_)
      refine On.bind (onlyIf_on (fun _ => echo_on _) (fun _ _ h => h)) fun _ => ?_
      refine On.bind rmPart_noRoot fun _ => ?_
      exact On.bind (echo_on _) fun _ => fetchMirrors_noRoot destination rest

theorem fetchSource_noRoot (destination : Str) (urls : List Str) :
    On World.work NoRoot (fetchSource archiveOk destination urls) (fun _ => NoRoot) NoRoot := by
  refine On.ite (fun _ => ?_) (fun _ => ?_)
  · exact On.bind (echo_on _) fun _ => On.raise fun _ h => h
  · exact On.bind rmPart_noRoot fun _ => fetchMirrors_noRoot archiveOk destination urls

theorem removeStale_noRoot :
    On World.work NoRoot (removeStale sha256 a) (fun _ => NoRoot) NoRoot := by
  refine On.bind work_on fun r => ?_
  refine On.ite (fun _ => ?_) (fun _ => On.pure fun w h => h.2)
  refine On.bind (Q := fun _ => NoRoot) ?_ fun verified => ?_
  · exact On.conseq (verifyArchive_on sha256 (fun _ h => h) _ _) (fun w h => h.2)
      (fun _ _ h => h.2) (fun _ h => h)
  · exact onlyIf_on (fun _ => rmArchive_noRoot) (fun _ _ h => h)

theorem cleanup_noRoot (temp : Name) :
    On World.work NoRoot (cleanup temp) (fun _ => NoRoot) NoRoot := by
  refine On.bind work_on fun r => onlyIf_on (fun _ => ?_) (fun _ _ h => h.2)
  refine On.conseq (command_noRoot ?_ ?_) (fun w h => h.2) (fun _ _ h => h) (fun _ h => h)
  · intro _ w w' he
    cases he
    exact ⟨rfl, rfl⟩
  · exact fun _ _ => ⟨rfl, rfl⟩

/-! From the verified archive to the rename. -/

section Install
variable {sha256 extract a} {bytes : Bytes} {temp : Name} {t : Tree}

/-- Nothing is installed, and the archive holds `bytes`. -/
def Fetched (bytes : Bytes) (w : Work) : Prop := NoRoot w ∧ w.archive = some bytes

/-- Nothing is installed, and the temporary directory holds `t`. -/
def Unpacked (temp : Name) (t : Tree) (w : Work) : Prop := NoRoot w ∧ w.temps temp.text = some t

theorem setTemp_self (w : Work) (temp : Name) (t : Option Tree) :
    (setTemp w temp t).temps temp.text = t := if_pos rfl

theorem mktemp_on : On World.work (Fetched bytes) mktemp (fun _ => Fetched bytes) NoRoot := by
  refine On.bind (Q := fun _ => Fetched bytes) (fun w hw => hw) fun drawn => ?_
  refine On.bind (Q := fun _ => Fetched bytes) (command_on ?_ (fun _ w h => h.1)) fun _ =>
    On.pure fun _ h => h
  intro f w w' h he
  split at he
  · cases he
    exact h
  · cases he

theorem untar_on :
    On World.work (Fetched bytes) (untar extract temp)
      (fun _ w => ∃ t, extract bytes = some t ∧ Unpacked temp t w) NoRoot := by
  refine command_on ?_ (fun _ w h => h.1)
  intro f w w' h he
  rw [h.2, Option.bind_eq_bind, Option.bind_some] at he
  obtain ⟨t, ht, he⟩ := Option.bind_eq_some_iff.mp he
  cases he
  exact ⟨t, ht, h.1, setTemp_self w temp (some t)⟩

theorem validateTemp_on :
    On World.work (Unpacked temp t) (validateTemp a temp)
      (fun _ w => Valid t ∧ Unpacked temp t w) NoRoot := by
  refine On.bind work_on fun r => ?_
  cases hr : r.temps temp.text with
  | none =>
    intro w ⟨hw, h⟩
    rw [hw, h.2] at hr
    cases hr
  | some u =>
    refine On.conseq (P := fun w => u = t ∧ Unpacked temp t w) (On.of_fact fun hu => ?_) ?_
      (fun _ _ h => h) (fun _ h => h)
    · subst hu
      refine On.bind (validateRoot_on _ u tools) fun valid => On.ite (fun hv => ?_) (fun _ => ?_)
      · exact On.pure fun w h => ⟨h.1.mp hv, h.2⟩
      · exact On.raise fun w h => h.2.1
    · intro w h'
      obtain ⟨rfl, h⟩ := h'
      rw [h.2] at hr
      cases hr
      exact ⟨rfl, h⟩

theorem touchMarker_on :
    On World.work (Unpacked temp t) (touchMarker temp)
      (fun _ w => ∃ t', t.touch marker = some t' ∧ Unpacked temp t' w) NoRoot := by
  refine command_on ?_ (fun _ w h => h.1)
  intro f w w' h he
  rw [h.2, Option.bind_eq_bind, Option.bind_some] at he
  obtain ⟨t', ht', he⟩ := Option.bind_eq_some_iff.mp he
  cases he
  exact ⟨t', ht', h.1, setTemp_self w temp (some t')⟩

/-- The rename puts the tree where nothing was. -/
theorem mvInstall_on :
    On World.work (Unpacked temp t) (mvInstall temp)
      (fun _ w => w.downloads = true ∧ w.installRoot = some t) NoRoot := by
  refine command_on ?_ (fun _ w h => h.1)
  intro f w w' h he
  rw [h.2, Option.bind_eq_bind, Option.bind_some, h.1.2] at he
  cases he
  exact ⟨h.1.1, rfl⟩

theorem install_on (hsha : sha256 bytes = a.expectedSha256) :
    On World.work (Fetched bytes) (install extract a temp)
      (fun _ w => ∃ t, w.installRoot = some t ∧ w.downloads = true ∧ Complete sha256 extract a t)
      NoRoot := by
  refine On.handle NoRoot ?_ (fun e => ?_)
  · refine On.bind untar_on fun _ => On.of_exists fun u => On.of_fact fun hu => ?_
    refine On.bind validateTemp_on fun _ => On.of_fact fun hvalid => ?_
    refine On.bind touchMarker_on fun _ => On.of_exists fun t => On.of_fact fun ht => ?_
    refine On.conseq mvInstall_on (fun _ h => h) ?_ (fun _ h => h)
    intro _ w h
    -- the marker takes no tool away
    have hvalid' : Valid t := fun tool htool =>
      Tree.isExecutable_mono (Tree.sub_touch ht) (hvalid tool htool)
    exact ⟨t, h.2, h.1, bytes, u, hsha, hu, ht, hvalid'⟩
  · cases e with
    | killed => exact On.raise fun _ h => h
    | status n => exact On.bind (cleanup_noRoot temp) fun _ => On.raise fun _ h => h

end Install

/-! The run. -/

theorem printInstall_on {P : Work → Prop} : On World.work P (printInstall a) (fun _ => P) P :=
  On.bind (reads_on fun _ h => h) fun _ _ hw => hw

/-- What is removed had no marker that is a regular file, and neither has a part of it. -/
theorem rmInstall_on :
    On World.work
      (fun w => w.downloads = true ∧ ∀ t, w.installRoot = some t → t.isFile marker = false)
      rmInstall (fun _ => NoRoot) (Inv sha256 extract a) := by
  refine command_on ?_ ?_
  · intro f w w' h he
    cases he
    exact ⟨h.1, rfl⟩
  · intro f w h t ht
    obtain ⟨u, hu, rfl⟩ := Option.map_eq_some_iff.mp ht
    refine ⟨h.1, Or.inr ?_⟩
    have hsub : Tree.Sub (partly f.remaining u) u := by
      intro p
      rw [partly]
      split
      · exact Or.inr rfl
      · exact Or.inl rfl
    by_contra hmark
    have hfile := Tree.isFile_mono hsub (Bool.eq_true_of_not_eq_false hmark)
    rw [h.2 u hu] at hfile
    cases hfile

theorem reinstall_on :
    On World.work
      (fun w => w.downloads = true ∧ ∀ t, w.installRoot = some t → t.isFile marker = false)
      (reinstall sha256 archiveOk extract a)
      (fun _ w => ∃ t, w.installRoot = some t ∧ w.downloads = true ∧ Complete sha256 extract a t)
      (Inv sha256 extract a) := by
  have hweak : ∀ {α : Type} {P : Work → Prop} {x : M α} {Q : α → Work → Prop},
      On World.work P x Q NoRoot → On World.work P x Q (Inv sha256 extract a) :=
    fun h => On.conseq h (fun _ h => h) (fun _ _ h => h) (fun _ h => h.inv sha256 extract a)
  refine On.bind work_on fun r => ?_
  -- from here to the rename nothing is installed
  refine On.bind (Q := fun _ => NoRoot) ?_ fun _ => ?_
  · refine onlyIf_on (fun _ => ?_) ?_
    · exact On.conseq (rmInstall_on sha256 extract a) (fun w h => h.2) (fun _ _ h => h)
        (fun _ h => h)
    · intro hnone w h'
      obtain ⟨rfl, h⟩ := h'
      exact ⟨h.1, by simpa using hnone⟩
  · refine On.bind (hweak (removeStale_noRoot sha256 a)) fun _ => ?_
    refine On.bind work_on fun r => ?_
    refine On.bind (Q := fun _ => NoRoot) (onlyIf_on (fun _ => ?_) (fun _ w h => h.2)) fun _ => ?_
    · exact On.conseq (hweak (fetchSource_noRoot archiveOk _ _)) (fun w h => h.2)
        (fun _ _ h => h) (fun _ h => h)
    · refine On.bind (verifyArchive_on sha256 (fun w h => h.inv sha256 extract a) _ _)
        fun verified => On.ite (fun hv => ?_) (fun _ => ?_)
      · -- the archive that was verified is the one that is unpacked
        subst hv
        refine On.conseq (P := fun w => ∃ bytes, sha256 bytes = a.expectedSha256 ∧ Fetched bytes w)
          (On.of_exists fun bytes => On.of_fact fun hsha => ?_) ?_ (fun _ _ h => h) (fun _ h => h)
        · refine On.bind (hweak mktemp_on) fun temp => ?_
          refine On.bind (hweak (install_on hsha)) fun _ => ?_
          refine On.conseq (printInstall_on a) (fun _ h => h) (fun _ _ h => h) ?_
          intro w h t' ht'
          obtain ⟨t, ht, hd, hc⟩ := h
          rw [ht] at ht'
          cases ht'
          exact ⟨hd, Or.inl hc⟩
        · intro w h'
          obtain ⟨h, hw⟩ := h'
          obtain ⟨bytes, hsha, hbytes⟩ := h rfl
          exact ⟨bytes, hsha, hw, hbytes⟩
      · -- the wrong archive goes, and the run ends
        refine On.bind (Q := fun _ => NoRoot) ?_ fun _ => On.raise fun _ h => h.inv sha256 extract a
        exact On.conseq (hweak rmArchive_noRoot) (fun w h => h.2) (fun _ _ h => h) (fun _ h => h)

theorem main_on :
    On World.work (Inv sha256 extract a) (main sha256 archiveOk extract a)
      (fun _ w => ∃ t, w.installRoot = some t ∧ w.downloads = true ∧ Complete sha256 extract a t)
      (Inv sha256 extract a) := by
  refine On.bind (Q := fun _ w => w.downloads = true ∧ Inv sha256 extract a w)
    (command_on ?_ (fun _ _ h => h)) fun _ => ?_
  · intro f w w' h he
    cases he
    exact ⟨rfl, fun t ht => ⟨rfl, (h t ht).2⟩⟩
  · refine On.bind (installed_on a) fun there => On.ite (fun hthere => ?_) (fun hthere => ?_)
    · -- the marker is a regular file, so the tree is a complete one
      refine On.conseq (printInstall_on a) (fun _ h => h) ?_ (fun w h => h.2.2)
      intro _ w h'
      obtain ⟨h, hd, hinv⟩ := h'
      obtain ⟨t, ht, hfile, -⟩ := h.mp hthere
      refine ⟨t, ht, hd, (hinv t ht).2.resolve_right ?_⟩
      rw [hfile]
      simp
    · refine On.conseq (reinstall_on sha256 archiveOk extract a) ?_ (fun _ _ h => h) (fun _ h => h)
      intro w h'
      obtain ⟨h, hd, hinv⟩ := h'
      refine ⟨hd, fun t ht => ?_⟩
      -- a complete tree that fails the check fails it at the marker
      rcases (hinv t ht).2 with hc | hf
      · by_contra hmark
        obtain ⟨-, -, -, -, -, hvalid⟩ := hc
        exact hthere (h.mpr ⟨t, ht, Bool.eq_true_of_not_eq_false hmark, hvalid⟩)
      · exact hf

/-- One run, with what becomes of its commands. -/
def run (plan : Nat → Fate) (w : Work) : Except Exit Unit × World :=
  main sha256 archiveOk extract a ⟨w, plan, [], []⟩

/-- What runs one after another, each of which may stop anywhere, make of an empty directory. -/
inductive Reachable : Work → Prop where
  | empty : Reachable Work.empty
  | run {w : Work} (plan : Nat → Fate) :
      Reachable w → Reachable (run sha256 archiveOk extract a plan w).2.work

theorem Inv.run {w : Work} (h : Inv sha256 extract a w) (plan : Nat → Fate) :
    Inv sha256 extract a (run sha256 archiveOk extract a plan w).2.work := by
  have hmain : On World.work (Inv sha256 extract a) (main sha256 archiveOk extract a)
      (fun _ => Inv sha256 extract a) (Inv sha256 extract a) := by
    refine On.conseq (main_on sha256 archiveOk extract a) (fun _ h => h) ?_ (fun _ h => h)
    intro _ w h t' ht'
    obtain ⟨t, ht, hd, hc⟩ := h
    rw [ht] at ht'
    cases ht'
    exact ⟨hd, Or.inl hc⟩
  exact hmain.of_run h

theorem Reachable.inv {w : Work} (h : Reachable sha256 archiveOk extract a w) :
    Inv sha256 extract a w := by
  induction h with
  | empty =>
    intro t ht
    cases ht
  | run plan _ ih => exact ih.run sha256 archiveOk extract a plan

/-! A further run finds the tree. -/

theorem validateRoot_of_valid (root : Str) (t : Tree) (s : World) :
    ∀ {l : List (Str × List Component)}, (∀ tool ∈ l, t.isExecutable tool.2 = true) →
      validateRoot root t l s = (.ok true, s)
  | [], _ => rfl
  | tool :: rest, h => by
    rw [validateRoot, if_pos (h tool (by simp))]
    exact validateRoot_of_valid root t s fun tool' h' => h tool' (by simp [h'])

theorem installed_of_valid {t : Tree} {s : World} (ht : s.work.installRoot = some t)
    (hfile : t.isFile marker = true) (hvalid : Valid t) : installed a s = (.ok true, s) := by
  rw [installed, Prog.bind_apply, work]
  dsimp only
  rw [ht]
  dsimp only
  rw [if_pos hfile, validateRoot_of_valid _ _ _ hvalid]

theorem command_of_completes {effect : Fate → Work → Option Work} {stopped : Fate → Work → Work}
    {s : World} {w : Work} (hplan : (s.plan 0).event = .completes)
    (heffect : effect (s.plan 0) s.work = some w) :
    command effect stopped s = (.ok (), { s with work := w, plan := fun n => s.plan (n + 1) }) := by
  rw [command]
  dsimp only
  rw [hplan]
  dsimp only
  rw [heffect]

theorem run_of_valid {w : Work} {t : Tree} (hd : w.downloads = true) (ht : w.installRoot = some t)
    (hfile : t.isFile marker = true) (hvalid : Valid t) {plan : Nat → Fate}
    (hplan : ∀ n, (plan n).event = .completes) :
    run sha256 archiveOk extract a plan w =
      (.ok (), ⟨w, fun n => plan (n + 2), [a.installRoot], []⟩) := by
  have hw : { w with downloads := true } = w := by rw [← hd]
  rw [run, main, Prog.bind_apply, command_of_completes (hplan 0) (congrArg some hw)]
  dsimp only
  rw [Prog.bind_apply, installed_of_valid a ht hfile hvalid]
  dsimp only
  rw [if_pos rfl, printInstall, Prog.bind_apply, reads, command_of_completes (hplan 1) rfl]
  rfl

/-- Whatever the runs before were and wherever they stopped: a run that returns 0 has a
    complete verified tree at `install_root`; a tree there with its marker and every tool is
    one; and from such a state a run that is not interrupted prints its path and changes
    nothing. -/
theorem prepare_onlyVerified {w : Work} (h : Reachable sha256 archiveOk extract a w) :
    (∀ plan, (run sha256 archiveOk extract a plan w).1 = .ok () →
      ∃ t, (run sha256 archiveOk extract a plan w).2.work.installRoot = some t ∧
        Complete sha256 extract a t) ∧
    (∀ t, w.installRoot = some t → t.isFile marker = true → Valid t →
      Complete sha256 extract a t) ∧
    ∀ t, w.installRoot = some t → t.isFile marker = true → Valid t →
      ∀ plan : Nat → Fate, (∀ n, (plan n).event = .completes) →
        (run sha256 archiveOk extract a plan w).1 = .ok () ∧
        (run sha256 archiveOk extract a plan w).2.work = w ∧
        (run sha256 archiveOk extract a plan w).2.stdout = [a.installRoot] := by
  have hinv := h.inv sha256 archiveOk extract a
  refine ⟨?_, ?_, ?_⟩
  · intro plan hok
    have hrun := main_on sha256 archiveOk extract a ⟨w, plan, [], []⟩ hinv
    rw [run] at hok ⊢
    cases hr : main sha256 archiveOk extract a ⟨w, plan, [], []⟩ with
    | mk r s =>
      rw [hr] at hrun hok
      cases r with
      | ok _ =>
        obtain ⟨t, ht, -, hc⟩ := hrun
        exact ⟨t, ht, hc⟩
      | error e => cases hok
  · intro t ht hfile _
    refine (hinv t ht).2.resolve_right ?_
    rw [hfile]
    simp
  · intro t ht hfile hvalid plan hplan
    rw [run_of_valid sha256 archiveOk extract a (hinv t ht).1 ht hfile hvalid hplan]
    exact ⟨rfl, rfl, rfl⟩

end Verified
/-! A run killed while it unpacks, and the next one. The archive is a real one of six empty
    executables. -/

def fixtureArchive : Bytes :=
  [253, 55, 122, 88, 90, 0, 0, 1, 105, 34, 222, 54, 2, 0, 33, 1, 28, 0, 0, 0, 16, 207, 88, 204,
   224, 39, 255, 0, 167, 93, 0, 51, 11, 200, 70, 212, 30, 49, 31, 143, 46, 56, 231, 8, 229, 74,
   96, 203, 240, 183, 161, 52, 56, 213, 224, 57, 78, 129, 184, 169, 94, 210, 208, 53, 191, 86, 93,
   30, 185, 44, 52, 138, 80, 20, 166, 85, 159, 74, 191, 86, 93, 212, 112, 225, 135, 20, 221, 191,
   55, 238, 116, 182, 60, 18, 189, 191, 89, 37, 182, 71, 39, 18, 169, 121, 112, 182, 133, 42, 189,
   204, 74, 241, 160, 139, 99, 156, 58, 209, 2, 230, 107, 129, 163, 203, 181, 173, 218, 212, 203,
   80, 2, 169, 188, 222, 58, 5, 192, 85, 119, 11, 61, 23, 105, 14, 189, 36, 134, 222, 147, 121,
   206, 235, 73, 4, 27, 183, 5, 28, 79, 46, 12, 75, 36, 86, 113, 42, 170, 254, 101, 205, 194, 167,
   138, 64, 172, 112, 186, 33, 192, 35, 87, 125, 112, 51, 118, 45, 219, 138, 200, 92, 183, 166,
   103, 196, 225, 134, 194, 0, 0, 0, 159, 247, 51, 174, 0, 1, 191, 1, 128, 80, 0, 0, 70, 196, 76,
   148, 62, 48, 13, 139, 2, 0, 0, 0, 0, 1, 89, 90]

def fixtureSha256 (bytes : Bytes) : Str :=
  if bytes = fixtureArchive then
    "60eb9e2a2dc130e4dcbb7fc9ccecc12b071ff6d3f69349762fd84add03bf2b90".toList
  else []

def fixtureTree : Tree := fun p =>
  if p ∈ tools.map (fun tool => tool.2.reverse.filterMap fun
      | .name n => some n
      | .up => none) then some (.file true [])
  else if p = [bin] then some .dir
  else none

def fixtureExtract (bytes : Bytes) : Option Tree :=
  if bytes = fixtureArchive then some fixtureTree else none

def fixtureArguments : Arguments :=
  ⟨"fixture".toList, "msvcrt".toList, "fixture.tar.xz".toList,
    "60eb9e2a2dc130e4dcbb7fc9ccecc12b071ff6d3f69349762fd84add03bf2b90".toList,
    "https://fixture.invalid/fixture.tar.xz".toList, "/work".toList⟩

/-- A plan in which everything completes, and the temporary name is given. -/
def completePlan (drawn : Name) : Nat → Fate :=
  fun _ => ⟨.completes, fun _ => true, Tree.empty, some fixtureArchive, drawn⟩

/-- The first run, killed at its seventh command, the extraction. -/
def killedPlan : Nat → Fate := fun n =>
  let fate := completePlan ⟨"aaaaaa".toList, by decide⟩ n
  if n = 6 then { fate with event := .killed } else fate

theorem prepare_afterKilledRun :
    ∃ t, (run fixtureSha256 (fun _ => true) fixtureExtract fixtureArguments
        (completePlan ⟨"bbbbbb".toList, by decide⟩)
        (run fixtureSha256 (fun _ => true) fixtureExtract fixtureArguments killedPlan
          Work.empty).2.work).2.work.installRoot = some t ∧
      Complete fixtureSha256 fixtureExtract fixtureArguments t :=
  (prepare_onlyVerified fixtureSha256 (fun _ => true) fixtureExtract fixtureArguments
    (.run killedPlan .empty)).1 _ (by decide +kernel)

end Mingw
