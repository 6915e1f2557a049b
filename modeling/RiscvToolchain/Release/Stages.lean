import RiscvToolchain.Release.PrepareBeget
import RiscvToolchain.Python.Raises

/- The stages of a run of `prepare-beget-release.py` up to the copies, wherever it
   fails. The carrying fact is `Frame`: whatever stood before the run stands
   unchanged, and what is new is the output directory, a directory on the way to it
   or an entry of it. Each stage keeps it and says what the entries of the output
   directory are; none is reserved (`release.json`, a `.release-` file). -/
namespace Release
open Python Posix Semantics

/-- The bytes of a file. -/
def contents (fs : FS) (p : Path) : Bytes :=
  match fs.get p with
  | some (.file bytes) => bytes
  | _ => []

/-- The names that only the last step of a successful run may leave in the output directory. -/
def Reserved (n : Name) : Prop := n = releaseJson ∨ ".release-".toList <+: n.text

/-- What was there is unchanged, and what is new is the output directory, on the way to it or
    in it. -/
def Frame (before : FS) (output : Path) (fs : FS) : Prop :=
  ∀ p, fs.get p = before.get p ∨
    before.get p = none ∧ (p <:+ output ∨ ∃ n, p = n :: output)

/-- What a run that fails before the rename leaves. -/
structure Failed (before : FS) (output : Path) (fs : FS) : Prop where
  frame : Frame before output fs
  clean : ∀ n, Reserved n → fs.get (n :: output) ≠ none → ∀ p, fs.get p = before.get p

theorem Frame.refl (fs : FS) (output : Path) : Frame fs output fs := fun _ => Or.inl rfl

theorem Failed.refl (fs : FS) (output : Path) : Failed fs output fs :=
  ⟨Frame.refl fs output, fun _ _ _ _ => rfl⟩

theorem cons_not_suffix (n : Name) (output : Path) : ¬ n :: output <:+ output := by
  intro h
  have := h.length_le
  simp at this

section Frame
variable {before fs fs' : FS} {output : Path}

/-- A new node in the output directory keeps the frame. -/
theorem Frame.child (h : Frame before output fs) {n : Name} {node : Option Node}
    (hn : before.get (n :: output) = none)
    (hget : ∀ q, fs'.get q = if q = n :: output then node else fs.get q) :
    Frame before output fs' := by
  intro p
  rw [hget p]
  split
  · rename_i hp
    rw [hp]
    exact Or.inr ⟨hn, Or.inr ⟨n, rfl⟩⟩
  · exact h p

/-- A file that was there reads as before. -/
theorem Frame.stat (h : Frame before output fs) {p : Path} {bytes : Bytes}
    (hp : before.stat p = some (.file bytes)) : fs.stat p = some (.file bytes) := by
  have keep : ∀ {q : Path} {node : Node}, before.get q = some node → fs.get q = some node := by
    intro q node hq
    rcases h q with h' | ⟨h', -⟩
    · rw [h', hq]
    · rw [hq] at h'
      cases h'
  rw [FS.stat] at hp ⊢
  cases hb : before.get p with
  | none =>
    rw [hb] at hp
    cases hp
  | some node =>
    rw [hb] at hp
    rw [keep hb]
    cases node with
    | symlink t =>
      cases ht : before.get t with
      | none =>
        simp only [ht] at hp
        cases hp
      | some target =>
        simp only [ht] at hp
        simp only [keep ht]
        exact hp
    | file b => exact hp
    | dir => exact hp
    | special => exact hp

/-- Nothing at or below a path that the output directory does not overlap is touched. -/
theorem Frame.untouched (h : Frame before output fs) {source p : Path}
    (hso : ¬ source <:+ output) (hos : ¬ output <:+ source) (hp : source <:+ p) :
    fs.get p = before.get p := by
  rcases h p with h' | ⟨-, h' | ⟨n, rfl⟩⟩
  · exact h'
  · exact absurd (hp.trans h') hso
  · rcases List.suffix_cons_iff.mp hp with rfl | hs
    · exact absurd (List.suffix_cons n output) hos
    · exact absurd hs hso

end Frame

/-! The operations. -/

section Ops
variable {α : Type} {P E : FS → Prop} {Q : α → FS → Prop}

theorem fileOp_onFS {failed : Fault → FS → FS} {op : FS → Except Errno (α × FS)}
    (hok : ∀ fs a fs', P fs → op fs = .ok (a, fs') → Q a fs')
    (hfailed : ∀ f fs, P fs → E (failed f fs)) (herr : ∀ fs, P fs → E fs) :
    On World.fs P (fileOp failed op) Q E := by
  intro w hw
  rw [fileOp]
  cases hf : w.fault 0 with
  | some f => exact hfailed f w.fs hw
  | none =>
    cases hop : op w.fs with
    | error e => exact herr w.fs hw
    | ok r => exact hok w.fs r.1 r.2 hw hop

theorem query_onFS {op : FS → Except Errno α} (hok : ∀ fs a, P fs → op fs = .ok a → Q a fs)
    (herr : ∀ fs, P fs → E fs) : On World.fs P (query op) Q E := by
  refine fileOp_onFS ?_ (fun _ => herr) herr
  intro fs a fs' hP h
  cases ha : op fs with
  | error e =>
    rw [ha] at h
    cases h
  | ok b =>
    rw [ha] at h
    cases h
    exact hok _ _ hP ha

/-- A test that answers yes has seen the node; a no may also be a failed `stat`. -/
theorem statTest_onFS {look : FS → Path → Option Node} {test : Node → Bool} {p : Path}
    (herr : ∀ fs, P fs → E fs) :
    On World.fs P (statTest look test p)
      (fun b fs => (b = true → ∃ node, look fs p = some node ∧ test node = true) ∧ P fs) E := by
  refine On.handle P (On.bind (Q := fun node fs => look fs p = some node ∧ P fs) ?_ ?_) ?_
  · refine query_onFS ?_ (fun _ h => h)
    intro fs node hP h
    cases hl : look fs p with
    | none =>
      rw [hl] at h
      cases h
    | some m =>
      rw [hl] at h
      cases h
      exact ⟨rfl, hP⟩
  · intro node
    exact On.pure fun fs h => ⟨fun ht => ⟨node, h.1, ht⟩, h.2⟩
  · intro e
    refine On.ite (fun _ => ?_) (fun _ => ?_)
    · exact On.pure fun fs h => ⟨by simp, h⟩
    · exact On.raise herr

theorem require_onFS {test : Bool} {message : Str} (herr : ∀ fs, P fs → E fs) :
    On World.fs P (require test message) (fun _ fs => test = true ∧ P fs) E := by
  cases test with
  | true => exact On.pure fun fs h => ⟨rfl, h⟩
  | false => exact On.raise herr

end Ops

/-! The checks change nothing. -/

section Validate
variable {before : FS}

/-- Only the file system of the start. -/
def Unchanged (before fs : FS) : Prop := fs = before

theorem validateArchives_onFS (source : Path) (archives : List Archive) :
    On World.fs (Unchanged before) (validateInput.validateArchives source archives)
      (fun _ fs => (∀ a ∈ archives, ∃ bytes, before.stat (a.name :: source) = some (.file bytes)) ∧
        Unchanged before fs) (Unchanged before) := by
  induction archives with
  | nil => exact On.pure fun fs h => ⟨by simp, h⟩
  | cons a rest ih =>
    refine On.bind (statTest_onFS fun _ h => h) (fun link => ?_)
    refine On.bind (require_onFS fun fs h => h.2) (fun _ => ?_)
    refine On.bind (statTest_onFS fun fs h => h.2.2) (fun file => ?_)
    refine On.bind (require_onFS fun fs h => h.2.2.2) (fun _ => ?_)
    refine On.conseq (P := fun fs => (∃ bytes, before.stat (a.name :: source) =
      some (.file bytes)) ∧ Unchanged before fs) (On.of_fact fun hbytes => ?_) ?_
      (fun _ _ h => h) (fun _ h => h)
    · refine On.conseq ih (fun _ h => h) ?_ (fun _ h => h)
      intro _ fs h
      refine ⟨?_, h.2⟩
      intro b hb
      rcases List.mem_cons.mp hb with rfl | hb
      · exact hbytes
      · exact h.1 b hb
    · -- a yes of `is_file` is about the file system of the start
      intro fs h
      obtain ⟨hfile, hseen, -, -, rfl⟩ := h
      obtain ⟨node, hn, ht⟩ := hseen hfile
      refine ⟨?_, rfl⟩
      cases node with
      | file bytes => exact ⟨bytes, hn⟩
      | dir => cases ht
      | symlink t => cases ht
      | special => cases ht

theorem validateInput_onFS (source : Path) :
    On World.fs (Unchanged before) (validateInput source)
      (fun _ fs => (∀ a ∈ FILES, ∃ bytes, before.stat (a.name :: source) = some (.file bytes)) ∧
        Unchanged before fs) (Unchanged before) := by
  refine On.bind (statTest_onFS fun _ h => h) (fun link => ?_)
  refine On.bind (require_onFS fun fs h => h.2) (fun _ => ?_)
  refine On.bind (statTest_onFS fun fs h => h.2.2) (fun dir => ?_)
  refine On.bind (require_onFS fun fs h => h.2.2.2) (fun _ => ?_)
  refine On.bind (Q := fun _ => Unchanged before)
    (query_onFS (fun fs _ h _ => h.2.2.2.2) (fun fs h => h.2.2.2.2)) (fun entries => ?_)
  refine On.bind (require_onFS fun fs h => h) (fun _ => ?_)
  exact On.conseq (validateArchives_onFS source FILES) (fun fs h => h.2) (fun _ _ h => h)
    (fun _ h => h)

end Validate

/-! The output directory is made. -/

section Mkdir
variable {before : FS} {output : Path}

/-- New directories on the way to the output directory, and nothing else. -/
def Made (before : FS) (output : Path) (fs : FS) : Prop :=
  ∀ p, fs.get p = before.get p ∨ before.get p = none ∧ p <:+ output ∧ fs.get p = some .dir

theorem Made.frame {fs : FS} (h : Made before output fs) : Frame before output fs := by
  intro p
  rcases h p with h' | ⟨hnone, hp, -⟩
  · exact Or.inl h'
  · exact Or.inr ⟨hnone, Or.inl hp⟩

theorem Made.child {fs : FS} (h : Made before output fs) (n : Name) :
    fs.get (n :: output) = before.get (n :: output) := by
  rcases h (n :: output) with h' | ⟨-, hp, -⟩
  · exact h'
  · exact absurd hp (cons_not_suffix n output)

/-- An entry of the output directory was there before, so the directory was, and none on the
    way to it is new. -/
theorem Made.failed {fs : FS} (h : Made before output fs) : Failed before output fs where
  frame := h.frame
  clean := by
    intro n _ hn p
    rw [h.child n] at hn
    have hout : before.get output ≠ none := by
      rw [FS.get_dir_of_child hn]
      exact Option.some_ne_none _
    rcases h p with h' | ⟨hnone, hp, -⟩
    · exact h'
    · exact absurd hnone (FS.get_ne_none_of_suffix hp hout)

theorem osMkdir_onFS {p : Path} (hp : p <:+ output) :
    On World.fs (Made before output) (osMkdir p)
      (fun _ fs => (fs.get p = some .dir ∧ before.get p = none) ∧ Made before output fs)
      (Made before output) := by
  refine fileOp_onFS ?_ (fun _ _ h => h) (fun _ h => h)
  intro fs _ fs' h hop
  cases hmk : fs.mkdir p with
  | error e =>
    rw [hmk] at hop
    cases hop
  | ok made =>
    rw [hmk] at hop
    cases hop
    obtain ⟨habsent, hget⟩ := FS.mkdir_ok hmk
    have hbefore : before.get p = none := by
      rcases h p with h' | ⟨h', -, -⟩
      · rw [← h', habsent]
      · exact h'
    refine ⟨⟨by rw [hget p, if_pos rfl], hbefore⟩, ?_⟩
    intro q
    rw [hget q]
    split
    · rename_i hq
      subst hq
      exact Or.inr ⟨hbefore, hp, rfl⟩
    · exact h q

theorem existing_onFS (existOk : Bool) (p : Path) (e : Exn) :
    On World.fs (Made before output) (mkdirParents.existing existOk p e)
      (fun _ fs => existOk = true ∧ Made before output fs) (Made before output) := by
  cases e with
  | valueError m => exact On.raise fun _ h => h
  | other => exact On.raise fun _ h => h
  | osError errno =>
    cases existOk with
    | false => exact On.raise fun _ h => h
    | true =>
      refine On.bind (statTest_onFS fun _ h => h) (fun there => ?_)
      refine On.ite (fun _ => ?_) (fun _ => ?_)
      · exact On.pure fun fs h => ⟨rfl, h.2⟩
      · exact On.raise fun fs h => h.2

/-- Without `exist_ok` a directory that was made was not there before. -/
theorem mkdirParents_onFS : ∀ (existOk : Bool) {p : Path}, p <:+ output →
    On World.fs (Made before output) (mkdirParents existOk p)
      (fun _ fs => (existOk = true ∨ fs.get p = some .dir ∧ before.get p = none) ∧
        Made before output fs) (Made before output) := by
  intro existOk p hp
  induction p generalizing existOk with
  | nil =>
    rw [mkdirParents]
    refine On.handle (Made before output) ?_ (fun e => ?_)
    · exact On.conseq (osMkdir_onFS hp) (fun _ h => h) (fun _ _ h => ⟨Or.inr h.1, h.2⟩)
        (fun _ h => h)
    · refine On.ite (fun _ => On.raise fun _ h => h) (fun _ => ?_)
      exact On.conseq (existing_onFS existOk _ e) (fun _ h => h)
        (fun _ _ h => ⟨Or.inl h.1, h.2⟩) (fun _ h => h)
  | cons n d ih =>
    rw [mkdirParents]
    have hmk : On World.fs (Made before output) (osMkdir (n :: d))
        (fun _ fs => (existOk = true ∨ fs.get (n :: d) = some .dir ∧
          before.get (n :: d) = none) ∧ Made before output fs) (Made before output) :=
      On.conseq (osMkdir_onFS hp) (fun _ h => h) (fun _ _ h => ⟨Or.inr h.1, h.2⟩) (fun _ h => h)
    have hex : ∀ e, On World.fs (Made before output) (mkdirParents.existing existOk (n :: d) e)
        (fun _ fs => (existOk = true ∨ fs.get (n :: d) = some .dir ∧
          before.get (n :: d) = none) ∧ Made before output fs) (Made before output) := fun e =>
      On.conseq (existing_onFS existOk (n :: d) e) (fun _ h => h)
        (fun _ _ h => ⟨Or.inl h.1, h.2⟩) (fun _ h => h)
    refine On.handle (Made before output) hmk (fun e => ?_)
    refine On.ite (fun _ => ?_) (fun _ => hex e)
    -- the parents first, then the directory again
    refine On.bind (ih true ((List.suffix_cons n d).trans hp)) (fun _ => ?_)
    refine On.handle (Made before output)
      (On.conseq hmk (fun _ h => h.2) (fun _ _ h => h) (fun _ h => h)) (fun e' => ?_)
    exact On.ite (fun _ => On.raise fun _ h => h) (fun _ => hex e')

/-- The output directory is there and empty, and had no entry before. -/
structure Ready (before : FS) (output : Path) (fs : FS) : Prop where
  frame : Frame before output fs
  dir : fs.get output = some .dir
  empty : ∀ n, fs.get (n :: output) = none

theorem prepareOutput_onFS :
    On World.fs (Unchanged before) (prepareOutput output)
      (fun _ fs => (∀ n, before.get (n :: output) = none) ∧ Ready before output fs)
      (Failed before output) := by
  have hfail : ∀ fs, Unchanged before fs → Failed before output fs := by
    intro fs heq
    subst heq
    exact Failed.refl fs output
  refine On.bind (statTest_onFS hfail) (fun there => ?_)
  refine On.ite (fun _ => ?_) (fun _ => ?_)
  · -- the directory is there: nothing is written, and it must be empty
    refine On.bind (statTest_onFS fun fs h => hfail fs h.2) (fun link => ?_)
    refine On.bind (require_onFS fun fs h => hfail fs h.2.2) (fun _ => ?_)
    refine On.bind (statTest_onFS fun fs h => hfail fs h.2.2.2) (fun dir => ?_)
    refine On.bind (require_onFS fun fs h => hfail fs h.2.2.2.2) (fun _ => ?_)
    refine On.bind (Q := fun entries fs => (fs.get output = some .dir ∧
      entries = fs.entries output) ∧ Unchanged before fs) (query_onFS ?_ ?_) (fun entries => ?_)
    · intro fs entries h' hop
      obtain ⟨-, -, -, -, -, h⟩ := h'
      refine ⟨?_, h⟩
      cases hget : fs.get output with
      | none =>
        rw [hget] at hop
        cases hop
      | some node =>
        rw [hget] at hop
        cases node with
        | dir =>
          cases hop
          exact ⟨rfl, rfl⟩
        | file b => cases hop
        | symlink t => cases hop
        | special => cases hop
    · exact fun fs h => hfail fs h.2.2.2.2.2
    · refine On.conseq (require_onFS fun fs h => hfail fs h.2) (fun _ h => h) ?_ (fun _ h => h)
      intro _ fs h
      obtain ⟨hempty, ⟨hdir, rfl⟩, rfl⟩ := h
      have hnone : ∀ n, fs.get (n :: output) = none := by
        intro n
        by_contra hn
        have hmem := FS.mem_entries.mpr hn
        rw [List.isEmpty_iff.mp hempty] at hmem
        cases hmem
      exact ⟨hnone, Frame.refl fs output, hdir, hnone⟩
  · -- it is made, so there was nothing under its name before
    refine On.conseq (mkdirParents_onFS false (List.suffix_refl output)) ?_ ?_
      (fun fs h => h.failed)
    · intro fs h p
      obtain ⟨-, rfl⟩ := h
      exact Or.inl rfl
    · intro _ fs h'
      obtain ⟨h, hmade⟩ := h'
      obtain ⟨hdir, hnew⟩ := h.resolve_left (by simp)
      have hnone : ∀ n, before.get (n :: output) = none := by
        intro n
        by_contra hn
        rw [FS.get_dir_of_child hn] at hnew
        cases hnew
      refine ⟨hnone, hmade.frame, hdir, ?_⟩
      intro n
      rw [hmade.child n, hnone n]

end Mkdir

/-! The six archives are copied. -/

theorem not_reserved_of_mem_files {n : Name} (h : n ∈ FILES.map Archive.name) : ¬ Reserved n := by
  have hall : ∀ m ∈ FILES.map Archive.name,
      m.text ≠ releaseJson.text ∧ ¬ ".release-".toList <+: m.text := by decide
  intro hr
  rcases hr with rfl | hr
  · exact (hall releaseJson h).1 rfl
  · exact (hall n h).2 hr

theorem nodup_files : (FILES.map Archive.name).Nodup := by decide

section Copy
variable (hexdigest : Bytes → Str) {before : FS} {source output : Path}

/-- The bytes of an archive of the input directory. -/
def sourceBytes (before : FS) (source : Path) (a : Archive) : Bytes :=
  match before.stat (a.name :: source) with
  | some (.file bytes) => bytes
  | _ => []

/-- The manifest's entry of an archive with the given bytes. -/
def Archive.entry (a : Archive) (bytes : Bytes) : Entry :=
  ⟨a.name.text, a.os, a.arch, a.archiv, hexdigest bytes⟩

/-- `done` are copied completely, and the output directory holds nothing else. -/
structure Copied (before : FS) (source output : Path) (done : List Archive) (fs : FS) : Prop where
  frame : Frame before output fs
  dir : fs.get output = some .dir
  copied : ∀ a ∈ done, fs.get (a.name :: output) = some (.file (sourceBytes before source a))
  nothingElse : ∀ n, fs.get (n :: output) ≠ none → n ∈ done.map Archive.name

theorem Ready.copied {fs : FS} (h : Ready before output fs) : Copied before source output [] fs where
  frame := h.frame
  dir := h.dir
  copied := by simp
  nothingElse := fun n hn => absurd (h.empty n) hn

/-- As long as the output directory holds archives only, a failure leaves nothing reserved. -/
theorem Frame.failed {fs : FS} (h : Frame before output fs)
    (honly : ∀ n, fs.get (n :: output) ≠ none → n ∈ FILES.map Archive.name) :
    Failed before output fs where
  frame := h
  clean := fun n hr hn => absurd hr (not_reserved_of_mem_files (honly n hn))

theorem Copied.failed {fs : FS} {done : List Archive} (h : Copied before source output done fs)
    (hdone : done ⊆ FILES) : Failed before output fs :=
  h.frame.failed fun n hn => List.map_subset Archive.name hdone (h.nothingElse n hn)

/-- A file of the output directory, as a copy or a write leaves it. -/
theorem Copied.write {fs fs' : FS} {done : List Archive} {a : Archive} {bytes : Bytes}
    (h : Copied before source output done fs) (hnone : before.get (a.name :: output) = none)
    (ha : a.name ∉ done.map Archive.name) (hw : fs.write (a.name :: output) bytes = .ok fs') :
    (∀ q, fs'.get q = if q = a.name :: output then some (.file bytes) else fs.get q) ∧
      Frame before output fs' := by
  have habsent : fs.get (a.name :: output) = none := by
    by_contra hn
    exact ha (h.nothingElse a.name hn)
  have hget := FS.write_ok hw (FS.locate_of_none habsent)
  exact ⟨hget, h.frame.child hnone hget⟩

section Step
variable {done rest : List Archive} {a : Archive} (hfiles : done ++ a :: rest = FILES)
  (hnone : ∀ n, before.get (n :: output) = none)
  (hvalid : ∀ a ∈ FILES, ∃ bytes, before.stat (a.name :: source) = some (.file bytes))

include hfiles in
theorem name_not_mem_done : a.name ∉ done.map Archive.name := by
  have h := nodup_files
  rw [← hfiles, List.map_append, List.map_cons] at h
  intro hmem
  exact (List.nodup_append.mp h).2.2 a.name hmem a.name (by simp) rfl

include hfiles hnone hvalid in
theorem copyfile_onFS :
    On World.fs (Copied before source output done) (copyfile (a.name :: source) (a.name :: output))
      (fun _ => Copied before source output (done ++ [a])) (Failed before output) := by
  have hnew : a.name ∉ done.map Archive.name := name_not_mem_done hfiles
  have hdone : done ⊆ FILES := by
    rw [← hfiles]
    exact List.subset_append_left done _
  have ha : a ∈ FILES := by
    rw [← hfiles]
    simp
  refine fileOp_onFS ?_ ?_ (fun fs h => h.failed hdone)
  · intro fs _ fs' h hop
    obtain ⟨bytes, hread, hop⟩ := bind_ok hop
    obtain ⟨fs'', hwrite, hop⟩ := bind_ok hop
    cases hop
    obtain ⟨hget, hframe⟩ := h.write (hnone _) hnew hwrite
    -- what is read is what stood there before the run
    have hbytes : bytes = sourceBytes before source a := by
      obtain ⟨b, hb⟩ := hvalid a ha
      have hstat := FS.read_ok hread
      rw [h.frame.stat hb] at hstat
      cases hstat
      rw [sourceBytes, hb]
    refine ⟨hframe, ?_, ?_, ?_⟩
    · rw [hget, if_neg (by simp), h.dir]
    · intro b hb
      rw [hget]
      rcases List.mem_append.mp hb with hb | hb
      · rw [if_neg, h.copied b hb]
        intro heq
        exact hnew (List.mem_map.mpr ⟨b, hb, (List.cons.inj heq).1⟩)
      · obtain rfl := List.mem_singleton.mp hb
        rw [if_pos rfl, hbytes]
    · intro n hn
      rw [hget] at hn
      rw [List.map_append, List.mem_append]
      split at hn
      · rename_i heq
        refine Or.inr ?_
        rw [(List.cons.inj heq).1]
        simp
      · exact Or.inl (h.nothingElse n hn)
  · intro f fs h
    rw [leftover]
    split
    · exact h.failed hdone
    · rename_i bytes hwritten
      split
      · rename_i fs' hwrite
        obtain ⟨hget, hframe⟩ := h.write (hnone _) hnew hwrite
        refine hframe.failed ?_
        intro n hn
        rw [hget] at hn
        split at hn
        · rename_i heq
          rw [(List.cons.inj heq).1]
          exact List.mem_map_of_mem ha
        · exact List.map_subset Archive.name hdone (h.nothingElse n hn)
      · exact h.failed hdone

end Step

/-- The loop reads the whole file. -/
theorem sha256Loop_onFS {P : FS → Prop} {E : FS → Prop} (herr : ∀ fs, P fs → E fs) :
    ∀ (fuel : Nat) (seen rest : Bytes), rest.length < fuel →
      On World.fs P (sha256Loop fuel seen rest) (fun bytes fs => bytes = seen ++ rest ∧ P fs) E
  | 0, _, _, h => by omega
  | fuel + 1, seen, rest, h => by
    refine On.bind (Q := fun chunk fs => chunk = rest.take CHUNK_SIZE ∧ P fs)
      (query_onFS (fun fs chunk hP hop => ⟨by cases hop; rfl, hP⟩) herr) (fun chunk => ?_)
    refine On.of_fact fun hchunk => ?_
    subst hchunk
    refine On.ite (fun hempty => ?_) (fun hne => ?_)
    · -- the last read returns nothing
      have hrest : rest = [] := by
        rw [List.isEmpty_iff, List.take_eq_nil_iff] at hempty
        exact hempty.resolve_left (by decide)
      exact On.pure fun fs hP => ⟨by rw [hrest, List.append_nil], hP⟩
    · have hlen : (rest.drop CHUNK_SIZE).length < fuel := by
        have hpos : 0 < rest.length := by
          rw [List.length_pos_iff]
          intro heq
          subst heq
          exact hne (by simp)
        have hchunk : CHUNK_SIZE = 1048576 := rfl
        rw [List.length_drop]
        omega
      refine On.conseq (sha256Loop_onFS herr fuel _ _ hlen) (fun _ h => h) ?_ (fun _ h => h)
      intro bytes fs hbytes
      rw [List.append_assoc, List.take_append_drop] at hbytes
      exact hbytes

theorem sha256_onFS {P : FS → Prop} {E : FS → Prop} {p : Path} {bytes : Bytes}
    (hp : ∀ fs, P fs → fs.get p = some (.file bytes)) (herr : ∀ fs, P fs → E fs) :
    On World.fs P (sha256 hexdigest p) (fun digest fs => digest = hexdigest bytes ∧ P fs) E := by
  refine On.bind (Q := fun archive fs => archive = bytes ∧ P fs) (query_onFS ?_ herr)
    (fun archive => ?_)
  · intro fs archive hP hop
    rw [FS.read_eq (hp fs hP)] at hop
    cases hop
    exact ⟨rfl, hP⟩
  · refine On.of_fact fun harchive => ?_
    subst harchive
    refine On.bind (sha256Loop_onFS herr _ [] archive (Nat.lt_succ_self _)) (fun seen => ?_)
    refine On.pure fun fs h => ⟨?_, h.2⟩
    rw [h.1, List.nil_append]

theorem copyArchives_onFS (hnone : ∀ n, before.get (n :: output) = none)
    (hvalid : ∀ a ∈ FILES, ∃ bytes, before.stat (a.name :: source) = some (.file bytes)) :
    ∀ (rest done : List Archive), done ++ rest = FILES →
      On World.fs (Copied before source output done)
        (copyArchives hexdigest source output rest
          (done.map fun a => a.entry hexdigest (sourceBytes before source a)))
        (fun files fs =>
          files = FILES.map (fun a => a.entry hexdigest (sourceBytes before source a)) ∧
          Copied before source output FILES fs)
        (Failed before output)
  | [], done, hfiles => by
    rw [List.append_nil] at hfiles
    subst hfiles
    exact On.pure fun fs h => ⟨rfl, h⟩
  | a :: rest, done, hfiles => by
    have hfiles' : (done ++ [a]) ++ rest = FILES := by rw [← hfiles]; simp
    have hdone : done ++ [a] ⊆ FILES := by
      rw [← hfiles']
      exact List.subset_append_left _ _
    refine On.bind (copyfile_onFS hfiles hnone hvalid) (fun _ => ?_)
    refine On.bind (sha256_onFS hexdigest (fun fs h => h.copied a (by simp))
      (fun fs h => h.failed hdone)) (fun digest => ?_)
    refine On.of_fact fun hdigest => ?_
    -- the digest is that of the copy, which has the bytes of the source
    have ih := copyArchives_onFS hnone hvalid rest (done ++ [a]) hfiles'
    rw [List.map_append, List.map_singleton, Archive.entry, ← hdigest] at ih
    exact ih

end Copy

end Release
