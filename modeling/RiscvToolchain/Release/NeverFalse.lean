import RiscvToolchain.Release.Stages

/- The manifest of a release bundle is never false: `main_neverFalse`, for every
   command line, every file system at the start and every failure of a file
   operation. -/
namespace Release
open Python Posix Semantics

/-! The manifest is written to a temporary file and renamed. -/

section Manifest
variable {before : FS} {source output : Path}

/-- The archives are copied, and the temporary file `t` holds `bytes`. -/
structure Staged (before : FS) (source output : Path) (t : Name) (bytes : Bytes) (fs : FS) :
    Prop where
  frame : Frame before output fs
  dir : fs.get output = some .dir
  copied : ∀ a ∈ FILES, fs.get (a.name :: output) = some (.file (sourceBytes before source a))
  temporary : fs.get (t :: output) = some (.file bytes)
  nothingElse : ∀ n, fs.get (n :: output) ≠ none → n ∈ FILES.map Archive.name ∨ n = t

/-- The bundle is complete: the six archives and the manifest. -/
structure Published (before : FS) (source output : Path) (text : Str) (fs : FS) : Prop where
  frame : Frame before output fs
  dir : fs.get output = some .dir
  copied : ∀ a ∈ FILES, fs.get (a.name :: output) = some (.file (sourceBytes before source a))
  manifest : fs.get (releaseJson :: output) = some (.file (encodeUtf8 text))
  nothingElse : ∀ n, fs.get (n :: output) ≠ none → n ∈ FILES.map Archive.name ∨ n = releaseJson

/-- A temporary file's name is neither an archive's nor the manifest's. -/
theorem temp_fresh {t : Name} (ht : ".release-".toList <+: t.text) :
    t ∉ FILES.map Archive.name ∧ t ≠ releaseJson := by
  refine ⟨fun h => not_reserved_of_mem_files h (Or.inr ht), ?_⟩
  intro heq
  subst heq
  exact absurd ht (by decide)

theorem FS.ne_of_name_ne {m n : Name} {d : Path} (h : m ≠ n) : m :: d ≠ n :: d :=
  fun he => h (List.cons.inj he).1

section Steps
variable {t : Name} (ht : ".release-".toList <+: t.text)
  (hnone : ∀ n, before.get (n :: output) = none)

include ht hnone in
/-- After the temporary file is written, next to the six copies and perhaps itself. -/
theorem staged_of_get {fs fs' : FS} {bytes : Bytes} (hframe : Frame before output fs)
    (hdir : fs.get output = some .dir)
    (hcopied : ∀ a ∈ FILES, fs.get (a.name :: output) = some (.file (sourceBytes before source a)))
    (hnames : ∀ n, fs.get (n :: output) ≠ none → n ∈ FILES.map Archive.name ∨ n = t)
    (hget : ∀ p, fs'.get p = if p = t :: output then some (.file bytes) else fs.get p) :
    Staged before source output t bytes fs' := by
  refine ⟨hframe.child (hnone _) hget, ?_, ?_, ?_, ?_⟩
  · rw [hget, if_neg (by simp), hdir]
  · intro a ha
    rw [hget, if_neg, hcopied a ha]
    apply FS.ne_of_name_ne
    intro heq
    exact (temp_fresh ht).1 (heq ▸ List.mem_map_of_mem ha)
  · rw [hget, if_pos rfl]
  · intro n hn
    rw [hget] at hn
    split at hn
    · rename_i heq
      exact Or.inr (List.cons.inj heq).1
    · exact hnames n hn

include hnone in
theorem mkstemp_onFS :
    On World.fs (Copied before source output FILES) (mkstemp output)
      (fun t fs => ".release-".toList <+: t.text ∧ Staged before source output t [] fs)
      (Failed before output) := by
  intro w hw
  refine fileOp_onFS (P := Copied before source output FILES)
    (Q := fun t fs => ".release-".toList <+: t.text ∧ Staged before source output t [] fs) ?_
    (fun _ fs h => h.failed (List.Subset.refl _)) (fun fs h => h.failed (List.Subset.refl _)) w hw
  intro fs t fs' h hop
  cases hs : w.suffixes.find? (fun s => fs.get (s.name :: output) = none) with
  -- no free name: the call fails
  | none =>
    simp only [hs] at hop
    cases hop
  | some s =>
    simp only [hs] at hop
    obtain ⟨fs'', hwrite, hop⟩ := bind_ok hop
    cases hop
    have hstart : ".release-".toList <+: s.name.text := List.prefix_append _ _
    have habsent : fs.get (s.name :: output) = none := by
      simpa using List.find?_some hs
    have hget := FS.write_ok hwrite (FS.locate_of_none habsent)
    exact ⟨hstart, staged_of_get hstart hnone h.frame h.dir h.copied
      (fun n hn => Or.inl (h.nothingElse n hn)) hget⟩

include ht hnone in
/-- Writing to the temporary file changes its bytes and nothing else. -/
theorem Staged.write {fs fs' : FS} {old bytes : Bytes}
    (h : Staged before source output t old fs) (hw : fs.write (t :: output) bytes = .ok fs') :
    Staged before source output t bytes fs' := by
  have hget := FS.write_ok hw (FS.locate_of_file h.temporary)
  exact staged_of_get ht hnone h.frame h.dir h.copied h.nothingElse hget

include ht hnone in
theorem Staged.leftover {fs : FS} {old : Bytes} (h : Staged before source output t old fs)
    (f : Fault) : ∃ bytes, Staged before source output t bytes (leftover (t :: output) f fs) := by
  rw [Release.leftover]
  split
  · exact ⟨old, h⟩
  · split
    · rename_i hw
      exact ⟨_, h.write ht hnone hw⟩
    · exact ⟨old, h⟩

include ht hnone in
theorem appendText_onFS (old : Bytes) (text : Str) :
    On World.fs (Staged before source output t old) (appendText (t :: output) text)
      (fun _ => Staged before source output t (old ++ encodeUtf8 text))
      (fun fs => ∃ bytes, Staged before source output t bytes fs) := by
  refine fileOp_onFS ?_ (fun f fs h => h.leftover ht hnone f) (fun fs h => ⟨old, h⟩)
  intro fs _ fs' h hop
  obtain ⟨bytes, hread, hop⟩ := bind_ok hop
  obtain ⟨fs'', hwrite, hop⟩ := bind_ok hop
  cases hop
  rw [FS.read_eq h.temporary] at hread
  cases hread
  exact h.write ht hnone hwrite

include ht hnone in
theorem osReplace_onFS (text : Str) :
    On World.fs (Staged before source output t (encodeUtf8 text))
      (osReplace (t :: output) (releaseJson :: output))
      (fun _ => Published before source output text)
      (fun fs => ∃ bytes, Staged before source output t bytes fs) := by
  refine fileOp_onFS ?_ (fun f fs h => ⟨_, h⟩) (fun fs h => ⟨_, h⟩)
  intro fs _ fs' h hop
  cases hrename : fs.rename (t :: output) (releaseJson :: output) with
  | error e =>
    rw [hrename] at hop
    cases hop
  | ok renamed =>
    rw [hrename] at hop
    cases hop
    obtain ⟨htfiles, htjson⟩ := temp_fresh ht
    have hget := FS.rename_ok hrename (FS.ne_of_name_ne htjson)
    have hne : ∀ a ∈ FILES, a.name ≠ t ∧ a.name ≠ releaseJson := by
      intro a ha
      have hmem : a.name ∈ FILES.map Archive.name := List.mem_map_of_mem ha
      exact ⟨fun heq => htfiles (heq ▸ hmem),
        fun heq => not_reserved_of_mem_files hmem (Or.inl heq)⟩
    refine ⟨?_, ?_, ?_, ?_, ?_⟩
    · -- the two names of the rename are new, the rest is as it was
      intro p
      rw [hget p]
      split
      · rename_i hp
        rw [hp]
        exact Or.inr ⟨hnone t, Or.inr ⟨t, rfl⟩⟩
      · split
        · rename_i hp
          rw [hp]
          exact Or.inr ⟨hnone releaseJson, Or.inr ⟨releaseJson, rfl⟩⟩
        · exact h.frame p
    · rw [hget, if_neg (by simp), if_neg (by simp), h.dir]
    · intro a ha
      rw [hget, if_neg (FS.ne_of_name_ne (hne a ha).1), if_neg (FS.ne_of_name_ne (hne a ha).2),
        h.copied a ha]
    · rw [hget, if_neg (FS.ne_of_name_ne (Ne.symm htjson)), if_pos rfl, h.temporary]
    · intro n hn
      rw [hget] at hn
      split at hn
      · exact absurd rfl hn
      · rename_i hnt
        split at hn
        · rename_i heq
          exact Or.inr (List.cons.inj heq).1
        · refine Or.inl ((h.nothingElse n hn).resolve_right ?_)
          intro heq
          subst heq
          exact hnt rfl

include ht hnone in
/-- After the handler the temporary file is gone. -/
theorem unlinkMissingOk_onFS :
    On World.fs (fun fs => ∃ bytes, Staged before source output t bytes fs)
      (unlinkMissingOk (t :: output)) (fun _ => Failed before output) (Failed before output) := by
  intro w ⟨bytes, h⟩
  obtain ⟨fs', hunlink, hget⟩ := FS.unlink_eq h.temporary
  rw [unlinkMissingOk, hunlink]
  refine (h.frame.child (hnone t) hget).failed ?_
  intro n hn
  rw [hget] at hn
  split at hn
  · exact absurd rfl hn
  · rename_i hnt
    refine (h.nothingElse n hn).resolve_right ?_
    intro heq
    subst heq
    exact hnt rfl

end Steps

theorem writeManifest_onFS (hnone : ∀ n, before.get (n :: output) = none) (manifest : Manifest) :
    On World.fs (Copied before source output FILES) (writeManifest output manifest)
      (fun _ => Published before source output (manifest.json ++ ['\n']))
      (Failed before output) := by
  refine On.bind (mkstemp_onFS hnone) (fun t => On.of_fact fun ht => ?_)
  refine On.handle (fun fs => ∃ bytes, Staged before source output t bytes fs) ?_ (fun e => ?_)
  · refine On.bind (Q := fun _ => Staged before source output t [])
      (query_onFS (fun _ _ h _ => h) (fun _ h => ⟨[], h⟩)) (fun _ => ?_)
    refine On.bind (appendText_onFS ht hnone [] manifest.json) (fun _ => ?_)
    refine On.bind (appendText_onFS ht hnone _ ['\n']) (fun _ => ?_)
    rw [List.nil_append, ← show encodeUtf8 (manifest.json ++ ['\n']) =
      encodeUtf8 manifest.json ++ encodeUtf8 ['\n'] from List.flatMap_append]
    refine On.bind (Q := fun _ => Staged before source output t
      (encodeUtf8 (manifest.json ++ ['\n']))) ?_ (fun _ => osReplace_onFS ht hnone _)
    refine fileOp_onFS ?_ (fun f fs h => h.leftover ht hnone f) (fun fs h => ⟨_, h⟩)
    intro fs _ fs' h hop
    cases hop
    exact h
  · exact On.bind (unlinkMissingOk_onFS ht hnone) (fun _ => On.raise fun _ h => h)

end Manifest

/-! The whole run. -/

section Run
variable (hexdigest : Bytes → Str) (resolver : Resolver)
  (parseArguments : List Str → Except Exn Arguments)

/-- The input and the output directory of a command line. -/
def argumentPaths (argv : List Str) (fs : FS) : Except Exn (Path × Path) := do
  let arguments ← parseArguments argv
  let source ← resolver.resolve fs arguments.input
  let output ← resolver.resolve fs arguments.output
  return (source, output)

/-- A version is a nonempty string over `[A-Za-z0-9._+~-]` that starts with a digit. -/
def ValidVersion (version : Str) : Prop :=
  ∃ c s, version = c :: s ∧ '0' ≤ c ∧ c ≤ '9' ∧
    ∀ x ∈ version, 'A' ≤ x ∧ x ≤ 'Z' ∨ 'a' ≤ x ∧ x ≤ 'z' ∨ '0' ≤ x ∧ x ≤ '9' ∨
      x ∈ ['.', '_', '+', '~', '-']

/-- The output directory is a complete bundle: the six archives as they are in the input
    directory, and a manifest that gives the digest of each under its name and profile. -/
structure Complete (source output : Path) (before after : FS) : Prop where
  entries : ∀ n, after.get (n :: output) ≠ none ↔ n ∈ FILES.map Archive.name ∨ n = releaseJson
  archives : ∀ a ∈ FILES, ∃ bytes, before.stat (a.name :: source) = some (.file bytes) ∧
    after.get (a.name :: output) = some (.file bytes)
  manifest : ∃ m : Manifest,
    after.get (releaseJson :: output) = some (.file (encodeUtf8 (m.json ++ ['\n']))) ∧
    ValidVersion m.version ∧
    m.files = FILES.map fun a => ⟨a.name.text, a.os, a.arch, a.archiv,
      hexdigest (contents after (a.name :: output))⟩

/-- What a run may leave. `failedEarly` says that it failed before the rename. -/
structure NeverFalse (failedEarly : Prop) (source output : Path) (before after : FS) : Prop where
  manifest : after.get (releaseJson :: output) ≠ none →
    (before.get (releaseJson :: output) ≠ none ∧ ∀ p, after.get p = before.get p) ∨
      Complete hexdigest source output before after
  failure : failedEarly → ∀ n, n = releaseJson ∨ ".release-".toList <+: n.text →
    after.get (n :: output) ≠ none → ∀ p, after.get p = before.get p
  input : ∀ p, source <:+ p → after.get p = before.get p

/-! What the checks of `main` give. -/

theorem isDigit_iff {x : Char} : x.isDigit = true ↔ '0' ≤ x ∧ x ≤ '9' := by
  rw [Char.isDigit, Bool.and_eq_true, decide_eq_true_eq, decide_eq_true_eq]
  rfl

theorem isVersionChar_iff {x : Char} : isVersionChar x = true ↔
    'A' ≤ x ∧ x ≤ 'Z' ∨ 'a' ≤ x ∧ x ≤ 'z' ∨ '0' ≤ x ∧ x ≤ '9' ∨ x ∈ ['.', '_', '+', '~', '-'] := by
  have hupper : x.isUpper = true ↔ 'A' ≤ x ∧ x ≤ 'Z' := by
    rw [Char.isUpper, decide_eq_true_eq]
    rfl
  have hlower : x.isLower = true ↔ 'a' ≤ x ∧ x ≤ 'z' := by
    rw [Char.isLower, Bool.and_eq_true, decide_eq_true_eq, decide_eq_true_eq]
    rfl
  rw [isVersionChar, Bool.or_eq_true, Bool.or_eq_true, Bool.or_eq_true, decide_eq_true_eq,
    isDigit_iff, hupper, hlower, or_assoc, or_assoc]

theorem versionMatches_valid {version : Str} (h : versionMatches version = true) :
    ValidVersion version := by
  cases version with
  | nil => cases h
  | cons c s =>
    rw [versionMatches, Bool.and_eq_true, List.all_eq_true, isDigit_iff] at h
    refine ⟨c, s, rfl, h.1.1, h.1.2, ?_⟩
    intro x hx
    rcases List.mem_cons.mp hx with rfl | hx
    · exact Or.inr (Or.inr (Or.inl h.1))
    · exact isVersionChar_iff.mp (h.2 x hx)

theorem normalizeVersion_valid {tag version : Str} (h : normalizeVersion tag = .ok version) :
    ValidVersion version := by
  unfold normalizeVersion at h
  extract_lets v at h
  split at h
  · rename_i hm
    rw [← Except.ok.inj h]
    exact versionMatches_valid hm
  · cases h

theorem not_overlap {source output : Path} (h : (!pathsOverlap source.str output.str) = true) :
    ¬ source <:+ output ∧ ¬ output <:+ source := by
  rw [← not_or]
  intro hs
  obtain ⟨c, hc, hmem⟩ := commonpath_mem_iff.mpr hs
  rw [pathsOverlap, hc] at h
  simp only [Bool.not_eq_true', Bool.or_eq_false_iff, decide_eq_false_iff_not] at h
  rcases hmem with hmem | hmem
  · exact h.1 hmem
  · exact h.2 hmem

theorem resolvePath_onFS {before : FS} (s : Str) :
    On World.fs (Unchanged before) (resolvePath resolver s)
      (fun p fs => resolver.resolve before s = .ok p ∧ Unchanged before fs)
      (Unchanged before) := by
  refine On.bind (Q := fun r fs => r = resolver.resolve before s ∧ Unchanged before fs)
    (query_onFS ?_ (fun _ h => h)) (fun r => ?_)
  · intro fs r heq hop
    subst heq
    cases hop
    exact ⟨rfl, rfl⟩
  · refine On.of_fact fun hr => ?_
    subst hr
    exact On.lift fun _ h => h

/-- What `main` has reached at the end of the rename. -/
structure Built (argv : List Str) (before : FS) (source output : Path) (m : Manifest) (fs : FS) :
    Prop where
  paths : argumentPaths resolver parseArguments argv before = .ok (source, output)
  disjoint : ¬ source <:+ output ∧ ¬ output <:+ source
  published : Published before source output (m.json ++ ['\n']) fs
  valid : ∀ a ∈ FILES, ∃ bytes, before.stat (a.name :: source) = some (.file bytes)
  version : ValidVersion m.version
  files : m.files = FILES.map fun a => a.entry hexdigest (sourceBytes before source a)

/-- What a failure before that leaves: nothing changed, or a failed run on the command line's
    own directories. -/
def Aborted (argv : List Str) (before : FS) (fs : FS) : Prop :=
  Unchanged before fs ∨ ∃ source output,
    argumentPaths resolver parseArguments argv before = .ok (source, output) ∧
    (¬ source <:+ output ∧ ¬ output <:+ source) ∧ Failed before output fs

theorem buildBundle_onFS (argv : List Str) (before : FS) :
    On World.fs (Unchanged before) (buildBundle hexdigest resolver parseArguments argv)
      (fun m fs => ∃ source output,
        Built hexdigest resolver parseArguments argv before source output m fs)
      (Aborted resolver parseArguments argv before) := by
  have hfail : ∀ fs, Unchanged before fs → Aborted resolver parseArguments argv before fs :=
    fun fs h => Or.inl h
  have hkeep : ∀ {α : Type} {x : M α} {Q : α → FS → Prop},
      On World.fs (Unchanged before) x Q (Unchanged before) →
      On World.fs (Unchanged before) x Q (Aborted resolver parseArguments argv before) :=
    fun h => On.conseq h (fun _ h => h) (fun _ _ h => h) hfail
  -- up to the check of the input nothing is written
  refine On.bind (On.lift hfail) (fun arguments => On.of_fact fun hargs => ?_)
  refine On.bind (require_onFS hfail) (fun _ => On.of_fact fun _ => ?_)
  refine On.bind (require_onFS hfail) (fun _ => On.of_fact fun _ => ?_)
  refine On.bind (On.lift hfail) (fun version => On.of_fact fun hversion => ?_)
  refine On.bind (hkeep (resolvePath_onFS resolver _)) (fun source =>
    On.of_fact fun hsource => ?_)
  refine On.bind (hkeep (resolvePath_onFS resolver _)) (fun output =>
    On.of_fact fun houtput => ?_)
  refine On.bind (require_onFS hfail) (fun _ => On.of_fact fun hdisjoint => ?_)
  have hpaths : argumentPaths resolver parseArguments argv before = .ok (source, output) := by
    rw [argumentPaths, hargs]
    show (do
      let source ← resolver.resolve before arguments.input
      let output ← resolver.resolve before arguments.output
      return (source, output)) = _
    rw [hsource, houtput]
    rfl
  have hfailed : ∀ fs, Failed before output fs → Aborted resolver parseArguments argv before fs :=
    fun fs h => Or.inr ⟨source, output, hpaths, not_overlap hdisjoint, h⟩
  refine On.bind (hkeep (validateInput_onFS source)) (fun _ => On.of_fact fun hvalid => ?_)
  -- from here on a failure leaves what `Failed` allows
  refine On.bind (On.conseq prepareOutput_onFS (fun _ h => h) (fun _ _ h => h) hfailed)
    (fun _ => On.of_fact fun hnone => ?_)
  refine On.bind (On.conseq (copyArchives_onFS hexdigest hnone hvalid FILES [] rfl)
    (fun _ h => h.copied) (fun _ _ h => h) hfailed) (fun files => On.of_fact fun hfiles => ?_)
  refine On.bind (On.conseq (writeManifest_onFS hnone _) (fun _ h => h) (fun _ _ h => h)
    hfailed) (fun _ => On.pure fun fs h => ⟨source, output, ?_⟩)
  exact ⟨hpaths, not_overlap hdisjoint, h, hvalid, normalizeVersion_valid hversion, hfiles⟩

theorem Built.complete {argv : List Str} {before fs : FS} {source output : Path} {m : Manifest}
    (h : Built hexdigest resolver parseArguments argv before source output m fs) :
    Complete hexdigest source output before fs where
  entries := by
    intro n
    refine ⟨h.published.nothingElse n, ?_⟩
    intro h
    rcases h with hn | rfl
    · obtain ⟨a, ha, rfl⟩ := List.mem_map.mp hn
      rw [h.published.copied a ha]
      exact Option.some_ne_none _
    · rw [h.published.manifest]
      exact Option.some_ne_none _
  archives := by
    intro a ha
    obtain ⟨bytes, hbytes⟩ := h.valid a ha
    refine ⟨bytes, hbytes, ?_⟩
    rw [h.published.copied a ha, sourceBytes, hbytes]
  manifest := by
    refine ⟨m, h.published.manifest, h.version, ?_⟩
    rw [h.files]
    apply List.map_congr_left
    intro a ha
    rw [Archive.entry, contents, h.published.copied a ha]

/-! The report leaves the file system alone. -/

theorem print_onFS (fs : FS) (line : Str) :
    On World.fs (Unchanged fs) (print line) (fun _ => Unchanged fs) (Unchanged fs) := by
  intro w hw
  rw [print]
  cases w.fault 0 with
  | some f => exact hw
  | none => exact hw

theorem reportFiles_onFS (fs : FS) (files : List Entry) :
    On World.fs (Unchanged fs) (reportFiles files) (fun _ => Unchanged fs) (Unchanged fs) := by
  induction files with
  | nil => exact On.pure fun _ h => h
  | cons e rest ih => exact On.bind (print_onFS fs _) (fun _ => ih)

theorem report_fs (m : Manifest) (w : World) : (report m w).2.fs = w.fs := by
  have h : On World.fs (Unchanged w.fs) (report m) (fun _ => Unchanged w.fs) (Unchanged w.fs) :=
    On.bind (print_onFS w.fs _) (fun _ => reportFiles_onFS w.fs m.files)
  exact h.of_run rfl

theorem main_fs (argv : List Str) (w : World) :
    (main hexdigest resolver parseArguments argv w).2.fs =
      (buildBundle hexdigest resolver parseArguments argv w).2.fs := by
  rw [main, Prog.bind_apply]
  cases buildBundle hexdigest resolver parseArguments argv w with
  | mk r t =>
    cases r with
    | ok m => exact report_fs m t
    | error e => rfl

/-- A run that returned has built the bundle. -/
theorem main_complete (argv : List Str) (w : World) {source output : Path}
    (hpaths : argumentPaths resolver parseArguments argv w.fs = .ok (source, output))
    (hok : (main hexdigest resolver parseArguments argv w).1 = .ok ()) :
    Complete hexdigest source output w.fs (main hexdigest resolver parseArguments argv w).2.fs := by
  rw [main_fs]
  have h := buildBundle_onFS hexdigest resolver parseArguments argv w.fs w rfl
  rw [main, Prog.bind_apply] at hok
  cases hr : buildBundle hexdigest resolver parseArguments argv w with
  | mk r t =>
    rw [hr] at h hok
    cases r with
    | ok m =>
      obtain ⟨source', output', hbuilt⟩ := h
      have hsame := hbuilt.paths
      rw [hpaths] at hsame
      cases hsame
      exact hbuilt.complete hexdigest resolver parseArguments
    | error e => cases hok

theorem NeverFalse.of_unchanged {failedEarly : Prop} {source output : Path} {before after : FS}
    (h : Unchanged before after) : NeverFalse hexdigest failedEarly source output before after where
  manifest := by
    rw [h]
    exact fun hex => Or.inl ⟨hex, fun _ => rfl⟩
  failure := by
    rw [h]
    exact fun _ _ _ _ _ => rfl
  input := by
    rw [h]
    exact fun _ _ => rfl

/-- Whatever the command line, the file system and the failures are: a manifest stands in the
    output directory after a run only if it stood there before and nothing changed, or with the
    complete bundle it describes; a run that fails before the rename leaves no manifest and no
    temporary file of its own; and the input directory is as it was. -/
theorem main_neverFalse (argv : List Str) (w : World) :
    match argumentPaths resolver parseArguments argv w.fs with
    | .error _ => (main hexdigest resolver parseArguments argv w).2.fs = w.fs
    | .ok (source, output) =>
      NeverFalse hexdigest
        (∃ e, (buildBundle hexdigest resolver parseArguments argv w).1 = .error e)
        source output w.fs (main hexdigest resolver parseArguments argv w).2.fs := by
  rw [main_fs]
  have h := buildBundle_onFS hexdigest resolver parseArguments argv w.fs w rfl
  cases hr : buildBundle hexdigest resolver parseArguments argv w with
  | mk r t =>
    rw [hr] at h
    cases r with
    | ok m =>
      obtain ⟨source, output, hbuilt⟩ := h
      rw [hbuilt.paths]
      refine ⟨fun _ => Or.inr (hbuilt.complete hexdigest resolver parseArguments), ?_, ?_⟩
      · intro h
        obtain ⟨e, he⟩ := h
        cases he
      · exact fun p hp => hbuilt.published.frame.untouched hbuilt.disjoint.1 hbuilt.disjoint.2 hp
    | error e =>
      rcases h with h | ⟨source, output, hpaths, hdisjoint, hfailed⟩
      · cases argumentPaths resolver parseArguments argv w.fs with
        | error e' => exact h
        | ok paths => exact NeverFalse.of_unchanged hexdigest h
      · rw [hpaths]
        refine ⟨?_, fun _ => hfailed.clean, ?_⟩
        · -- a manifest that is there was there before
          intro hex
          have hsame := hfailed.clean releaseJson (Or.inl rfl) hex
          refine Or.inl ⟨?_, hsame⟩
          rw [← hsame]
          exact hex
        · exact fun p hp => hfailed.frame.untouched hdisjoint.1 hdisjoint.2 hp

end Run

end Release
