import RiscvToolchain.Posix.Lines
import RiscvToolchain.Release.NeverFalse

/- The two shell scripts that look at a directory of release files before it is
   used: the bundle check of `build/deploy-beget-release.sh` and
   `build/verify-release-files.sh`. The first compares the lines of a sorted listing
   and not the entries; that no entry hides behind another's lines follows by
   counting (`bundleCheck_iff`). The file lists are written three times in the
   source and are kept apart here.

   Correspondence (bash ↔ Lean):
     `find "$BUNDLE_DIR" -printf '%f\n'`           ↔ `find`
     `mapfile -t`, `sort`                          ↔ `lines`, `sort`
     deploy-beget-release.sh, the bundle check     ↔ `bundleCheck`
     verify-release-files.sh                       ↔ `verifyReleaseFiles`
-/
namespace Release
open Python Posix Semantics

/-- `expected_files` of deploy-beget-release.sh. -/
def expectedFiles : List Str :=
  ["niiet-riscv-toolchain-linux-x86_64.tar.gz".toList,
   "niiet-riscv-toolchain-linux-x86_64.zip".toList,
   "niiet-riscv-toolchain-macos-aarch64.tar.gz".toList,
   "niiet-riscv-toolchain-macos-aarch64.zip".toList,
   "niiet-riscv-toolchain-windows-x86_64.tar.gz".toList,
   "niiet-riscv-toolchain-windows-x86_64.zip".toList,
   "release.json".toList]

/-- `EXPECTED_FILES` of verify-release-files.sh. -/
def EXPECTED_FILES : List Str :=
  ["niiet-riscv-toolchain-linux-x86_64.tar.gz".toList,
   "niiet-riscv-toolchain-linux-x86_64.zip".toList,
   "niiet-riscv-toolchain-macos-aarch64.tar.gz".toList,
   "niiet-riscv-toolchain-macos-aarch64.zip".toList,
   "niiet-riscv-toolchain-windows-x86_64.tar.gz".toList,
   "niiet-riscv-toolchain-windows-x86_64.zip".toList]

/-- The path `"$DIR/$text"`; `none` where the text is no entry's name, and so the path is a
    directory (`""`, `.` and `..`) or lies deeper. -/
def pathOf (dir : Path) (text : Str) : Option Path :=
  if h : text ≠ [] ∧ '/' ∉ text ∧ text ≠ ['.'] ∧ text ≠ ['.', '.'] then some (⟨text, h⟩ :: dir)
  else none

/-- `-f`. -/
def testFile (fs : FS) (p : Path) : Bool :=
  match fs.stat p with
  | some (.file _) => true
  | _ => false

/-- `-L`. -/
def testLink (fs : FS) (p : Path) : Bool :=
  match fs.get p with
  | some (.symlink _) => true
  | _ => false

/-- The names of the entries, one a line. -/
def find (fs : FS) (dir : Path) : Str := unlines ((fs.entries dir).map Name.text)

/-- The loop over the indices of `expected_sorted`. -/
def checkEntries (fs : FS) (bundleDir : Path) : List Str → List Str → Except Str Unit
  | _, [] => .ok ()
  | [], _ :: _ => .error "bundle_files[index]: unbound variable".toList
  | b :: bundleFiles, e :: expectedSorted =>
    if b = e then
      match pathOf bundleDir b with
      | some path =>
        if testFile fs path && !testLink fs path then
          checkEntries fs bundleDir bundleFiles expectedSorted
        else .error "bundle entry must be a regular non-symlink file".toList
      | none => .error "bundle entry must be a regular non-symlink file".toList
    else .error "unexpected bundle contents".toList

def bundleCheck (c : Collation) (fs : FS) (bundleDir : Path) : Except Str Unit :=
  let bundleFiles := lines (sort c (find fs bundleDir))
  if bundleFiles.length = 7 then
    let expectedSorted := lines (sort c (unlines expectedFiles))
    checkEntries fs bundleDir bundleFiles expectedSorted
  else .error "bundle must contain exactly seven files".toList

/-- The loop over `EXPECTED_FILES`. -/
def checkReleaseFiles (fs : FS) (releaseDir : Path) : List Str → Except Str Unit
  | [] => .ok ()
  | e :: rest =>
    match pathOf releaseDir e with
    | some path =>
      if testFile fs path then checkReleaseFiles fs releaseDir rest
      else .error ("missing release file: ".toList ++ e)
    | none => .error ("missing release file: ".toList ++ e)

/-- With `dotglob` and `nullglob`, `"$RELEASE_DIR"/*` is every entry of the directory. -/
def verifyReleaseFiles (fs : FS) (releaseDir : Path) : Except Str Unit :=
  if fs.stat releaseDir = some .dir then
    let releaseFiles := fs.entries releaseDir
    if releaseFiles.length = EXPECTED_FILES.length then
      checkReleaseFiles fs releaseDir EXPECTED_FILES
    else .error ("expected exactly six release files, found ".toList ++ str releaseFiles.length)
  else .error ("release directory not found: ".toList ++ releaseDir.str)

/-! The tests of single paths. -/

theorem testFile_and_not_testLink_iff {fs : FS} {p : Path} :
    (testFile fs p && !testLink fs p) = true ↔ ∃ bytes, fs.get p = some (.file bytes) := by
  rw [testFile, testLink, FS.stat]
  cases hp : fs.get p with
  | none => simp
  | some node => cases node <;> simp

theorem testFile_of_get {fs : FS} {p : Path} {bytes : Bytes} (h : fs.get p = some (.file bytes)) :
    testFile fs p = true := by
  rw [testFile, FS.stat, h]

theorem pathOf_text (dir : Path) (n : Name) : pathOf dir n.text = some (n :: dir) := by
  rw [pathOf, dif_pos n.valid]

/-- A regular file of this name stands in the directory. -/
def HasFile (fs : FS) (dir : Path) (text : Str) : Prop :=
  ∃ n : Name, n.text = text ∧ ∃ bytes, fs.get (n :: dir) = some (.file bytes)

theorem checkEntries_ok_iff {fs : FS} {dir : Path} : ∀ {bs es : List Str},
    bs.length = es.length →
      (checkEntries fs dir bs es = .ok () ↔ bs = es ∧ ∀ e ∈ es, HasFile fs dir e)
  | [], [], _ => by simp [checkEntries]
  | b :: bs, e :: es, hlen => by
    have ih := @checkEntries_ok_iff fs dir bs es (Nat.succ.inj hlen)
    rw [checkEntries]
    by_cases hbe : b = e
    · subst hbe
      rw [if_pos rfl]
      -- the test of the path is the test for a regular file of this name
      have htest : ∀ p, pathOf dir b = some p →
          ((testFile fs p && !testLink fs p) = true ↔ HasFile fs dir b) := by
        intro p hp
        rw [testFile_and_not_testLink_iff]
        rw [pathOf] at hp
        split at hp
        · rename_i hvalid
          cases hp
          refine ⟨fun h => ⟨⟨b, hvalid⟩, rfl, h⟩, ?_⟩
          intro h'
          obtain ⟨n, hn, h⟩ := h'
          have hname : n = ⟨b, hvalid⟩ := Name.ext hn
          rwa [hname] at h
        · cases hp
      cases hp : pathOf dir b with
      | none =>
        refine ⟨nofun, ?_⟩
        intro h'
        obtain ⟨-, h⟩ := h'
        obtain ⟨n, hn, -⟩ := h b (by simp)
        rw [← hn, pathOf_text] at hp
        cases hp
      | some p =>
        dsimp only
        have htest := htest p hp
        by_cases hf : HasFile fs dir b
        · rw [if_pos (htest.mpr hf), ih]
          simp [hf]
        · rw [if_neg (fun h => hf (htest.mp h))]
          refine ⟨nofun, ?_⟩
          intro h'
          obtain ⟨-, h⟩ := h'
          exact absurd (h b (by simp)) hf
    · rw [if_neg hbe]
      refine ⟨nofun, ?_⟩
      intro h'
      obtain ⟨h, -⟩ := h'
      exact absurd (List.cons.inj h).1 hbe

theorem checkReleaseFiles_ok {fs : FS} {dir : Path} : ∀ {es : List Str},
    (∀ e ∈ es, HasFile fs dir e) → checkReleaseFiles fs dir es = .ok ()
  | [], _ => rfl
  | e :: es, h => by
    obtain ⟨n, hn, bytes, hbytes⟩ := h e (by simp)
    rw [checkReleaseFiles, ← hn, pathOf_text]
    dsimp only
    rw [if_pos (testFile_of_get hbytes)]
    exact checkReleaseFiles_ok fun e' he' => h e' (by simp [he'])

/-! The bundle check accepts exactly the complete bundles. -/

/-- The entries of the directory are exactly the seven expected names, and each is a regular
    file and no link. -/
structure ExactBundle (fs : FS) (dir : Path) : Prop where
  names : ∀ n, n ∈ fs.entries dir ↔ n.text ∈ expectedFiles
  regular : ∀ n ∈ fs.entries dir, ∃ bytes, fs.get (n :: dir) = some (.file bytes)

theorem nodup_expectedFiles : expectedFiles.Nodup := by decide

theorem newline_not_mem_expectedFiles : ∀ e ∈ expectedFiles, '\n' ∉ e := by decide

theorem lines_expected (c : Collation) :
    lines (sort c (unlines expectedFiles)) = expectedFiles.mergeSort c.le := by
  rw [lines_sort, lines_listing, flatMap_split_of_not_mem newline_not_mem_expectedFiles]

theorem lines_find (c : Collation) (fs : FS) (dir : Path) :
    lines (sort c (find fs dir)) =
      (((fs.entries dir).map Name.text).flatMap (split '\n')).mergeSort c.le := by
  rw [lines_sort, find, lines_listing]

/-- Every name gives a line. -/
theorem length_le_flatMap_split (ls : List Str) :
    ls.length ≤ (ls.flatMap (split '\n')).length := by
  induction ls with
  | nil => simp
  | cons l ls ih =>
    have hl : 0 < (split '\n' l).length := List.length_pos_iff.mpr (split_ne_nil '\n' l)
    rw [List.flatMap_cons, List.length_append, List.length_cons]
    omega

/-- The check passes when the lines are the expected ones and each is a regular file. -/
theorem bundleCheck_eq_ok_iff (c : Collation) (fs : FS) (dir : Path) :
    bundleCheck c fs dir = .ok () ↔
      (((fs.entries dir).map Name.text).flatMap (split '\n')).Perm expectedFiles ∧
        ∀ e ∈ expectedFiles, HasFile fs dir e := by
  unfold bundleCheck
  rw [lines_find, lines_expected]
  dsimp only
  have hseven : (expectedFiles.mergeSort c.le).length = 7 := by
    rw [List.length_mergeSort]
    rfl
  split
  · rename_i hlen
    rw [checkEntries_ok_iff (by rw [hlen, hseven]), mergeSort_eq_iff_perm]
    simp only [List.mem_mergeSort]
  · rename_i hlen
    refine ⟨nofun, ?_⟩
    intro h
    obtain ⟨hperm, -⟩ := h
    rw [(mergeSort_eq_iff_perm c).mpr hperm] at hlen
    exact absurd hseven hlen

theorem bundleCheck_iff_exact (c : Collation) (fs : FS) (dir : Path) :
    bundleCheck c fs dir = .ok () ↔ ExactBundle fs dir := by
  rw [bundleCheck_eq_ok_iff]
  have hnodup : ((fs.entries dir).map Name.text).Nodup :=
    (fs.nodup_entries dir).map fun _ _ h => Name.ext h
  constructor
  · intro h
    obtain ⟨hperm, hfiles⟩ := h
    -- the seven names are entries, and seven lines leave no room for another entry
    have hsub : expectedFiles ⊆ (fs.entries dir).map Name.text := by
      intro e he
      obtain ⟨n, hn, bytes, hbytes⟩ := hfiles e he
      rw [List.mem_map]
      refine ⟨n, FS.mem_entries.mpr ?_, hn⟩
      rw [hbytes]
      exact Option.some_ne_none _
    have hle : ((fs.entries dir).map Name.text).length ≤ expectedFiles.length :=
      calc ((fs.entries dir).map Name.text).length
          ≤ (((fs.entries dir).map Name.text).flatMap (split '\n')).length :=
            length_le_flatMap_split _
        _ = expectedFiles.length := hperm.length_eq
    have hall : expectedFiles.Perm ((fs.entries dir).map Name.text) :=
      (List.subperm_of_subset nodup_expectedFiles hsub).perm_of_length_le hle
    have hnames : ∀ n, n ∈ fs.entries dir ↔ n.text ∈ expectedFiles := by
      intro n
      rw [hall.mem_iff, List.mem_map]
      refine ⟨fun h => ⟨n, h, rfl⟩, ?_⟩
      intro h
      obtain ⟨m, hm, hmn⟩ := h
      rwa [← Name.ext hmn]
    refine ⟨hnames, ?_⟩
    intro n hn
    obtain ⟨m, hm, h⟩ := hfiles n.text ((hnames n).mp hn)
    rwa [Name.ext hm] at h
  · intro ⟨hnames, hregular⟩
    have hvalid : ∀ e ∈ expectedFiles, ∃ n : Name, n.text = e := by
      have hall : ∀ e ∈ expectedFiles,
          e ≠ [] ∧ '/' ∉ e ∧ e ≠ ['.'] ∧ e ≠ ['.', '.'] := by decide
      exact fun e he => ⟨⟨e, hall e he⟩, rfl⟩
    have hmem : ∀ e, e ∈ (fs.entries dir).map Name.text ↔ e ∈ expectedFiles := by
      intro e
      rw [List.mem_map]
      refine ⟨?_, ?_⟩
      · intro h
        obtain ⟨n, hn, rfl⟩ := h
        exact (hnames n).mp hn
      · intro he
        obtain ⟨n, rfl⟩ := hvalid e he
        exact ⟨n, (hnames n).mpr he, rfl⟩
    refine ⟨?_, ?_⟩
    · rw [flatMap_split_of_not_mem
        (fun l hl => newline_not_mem_expectedFiles l ((hmem l).mp hl))]
      exact (List.perm_ext_iff_of_nodup hnodup nodup_expectedFiles).mpr hmem
    · intro e he
      obtain ⟨n, rfl⟩ := hvalid e he
      exact ⟨n, rfl, hregular n ((hnames n).mpr he)⟩

/-! The three scripts agree on the names. -/

theorem expectedFiles_eq :
    expectedFiles = FILES.map (fun a => a.name.text) ++ [releaseJson.text] := by decide

theorem EXPECTED_FILES_eq : EXPECTED_FILES = FILES.map (fun a => a.name.text) := by decide

theorem text_mem_files_iff {n : Name} :
    n.text ∈ FILES.map (fun a => a.name.text) ↔ n ∈ FILES.map Archive.name := by
  rw [List.mem_map, List.mem_map]
  refine exists_congr fun a => and_congr_right fun _ => ?_
  exact ⟨Name.ext, fun h => h ▸ rfl⟩

theorem text_mem_expectedFiles_iff {n : Name} :
    n.text ∈ expectedFiles ↔ n ∈ FILES.map Archive.name ∨ n = releaseJson := by
  rw [expectedFiles_eq, List.mem_append, text_mem_files_iff, List.mem_singleton]
  exact or_congr_right ⟨Name.ext, fun h => h ▸ rfl⟩

section Bundle
variable {hexdigest : Bytes → Str} {source output : Path} {before after : FS}

theorem Complete.exactBundle (h : Complete hexdigest source output before after) :
    ExactBundle after output where
  names := by
    intro n
    rw [FS.mem_entries, h.entries, text_mem_expectedFiles_iff]
  regular := by
    intro n hn
    rcases (h.entries n).mp (FS.mem_entries.mp hn) with hn | rfl
    · obtain ⟨a, ha, rfl⟩ := List.mem_map.mp hn
      obtain ⟨bytes, -, hbytes⟩ := h.archives a ha
      exact ⟨bytes, hbytes⟩
    · obtain ⟨m, hm, -⟩ := h.manifest
      exact ⟨_, hm⟩

/-- Without its manifest a complete bundle is a directory of the six release files. -/
theorem Complete.verifyReleaseFiles (h : Complete hexdigest source output before after)
    {fs : FS} (hfs : after.unlink (releaseJson :: output) = .ok fs) :
    verifyReleaseFiles fs output = .ok () := by
  obtain ⟨m, hm, -⟩ := h.manifest
  obtain ⟨fs', hunlink, hget⟩ := FS.unlink_eq hm
  rw [hfs] at hunlink
  cases hunlink
  have hdir : fs.stat output = some .dir := by
    have hout : after.get output = some .dir := FS.get_dir_of_child (n := releaseJson) (by simp [hm])
    rw [FS.stat, hget, if_neg (by simp), hout]
  -- the manifest is the one name of the bundle that is no archive
  have hnames : ∀ n, n ∈ fs.entries output ↔ n ∈ FILES.map Archive.name := by
    intro n
    rw [FS.mem_entries, hget]
    split
    · rename_i heq
      obtain rfl := (List.cons.inj heq).1
      exact ⟨fun hn => absurd rfl hn,
        fun hn => absurd (Or.inl rfl) (not_reserved_of_mem_files hn)⟩
    · rename_i hne
      rw [h.entries]
      refine ⟨fun hn => hn.resolve_right ?_, Or.inl⟩
      intro heq
      subst heq
      exact hne rfl
  have hlen : (fs.entries output).length = EXPECTED_FILES.length := by
    have hperm := (List.perm_ext_iff_of_nodup (fs.nodup_entries output) nodup_files).mpr hnames
    rw [hperm.length_eq]
    rfl
  unfold Release.verifyReleaseFiles
  rw [if_pos hdir]
  dsimp only
  rw [if_pos hlen]
  apply checkReleaseFiles_ok
  intro e he
  rw [EXPECTED_FILES_eq] at he
  obtain ⟨a, ha, rfl⟩ := List.mem_map.mp he
  obtain ⟨bytes, -, hbytes⟩ := h.archives a ha
  refine ⟨a.name, rfl, bytes, ?_⟩
  rw [hget, if_neg, hbytes]
  intro heq
  exact not_reserved_of_mem_files (List.mem_map_of_mem ha) (Or.inl (List.cons.inj heq).1)

end Bundle

/-- The deploy script accepts exactly the complete bundles; so it accepts what a successful
    preparation leaves, and the release check accepts that without its manifest. -/
theorem bundleCheck_exact (c : Collation) :
    (∀ fs dir, bundleCheck c fs dir = .ok () ↔ ExactBundle fs dir) ∧
    ∀ (hexdigest : Bytes → Str) (resolver : Resolver)
      (parseArguments : List Str → Except Exn Arguments) (argv : List Str) (w : World)
      (source output : Path),
      argumentPaths resolver parseArguments argv w.fs = .ok (source, output) →
      (main hexdigest resolver parseArguments argv w).1 = .ok () →
      bundleCheck c (main hexdigest resolver parseArguments argv w).2.fs output = .ok () ∧
      ∃ fs, (main hexdigest resolver parseArguments argv w).2.fs.unlink (releaseJson :: output) =
          .ok fs ∧ verifyReleaseFiles fs output = .ok () := by
  refine ⟨bundleCheck_iff_exact c, ?_⟩
  intro hexdigest resolver parseArguments argv w source output hpaths hok
  have hcomplete := main_complete hexdigest resolver parseArguments argv w hpaths hok
  refine ⟨(bundleCheck_iff_exact c _ _).mpr hcomplete.exactBundle, ?_⟩
  obtain ⟨m, hm, -⟩ := hcomplete.manifest
  obtain ⟨fs, hfs, -⟩ := FS.unlink_eq hm
  exact ⟨fs, hfs, hcomplete.verifyReleaseFiles hfs⟩

/-! A run on six empty archives. -/

def inDir : Name := ⟨"in".toList, by decide⟩

def outDir : Name := ⟨"out".toList, by decide⟩

def sixArchives : World where
  fs := FS.ofDict (Dict.empty.assign (([], .dir) :: ([inDir], .dir) ::
    FILES.map fun a => ([a.name, inDir], .file []))) (by decide +kernel)
  fault := fun _ => none
  suffixes := [⟨"k3_q9zab".toList, by decide⟩]
  stdout := []

/-- Names below the root, where no link is on the way. -/
def rootResolver : Resolver where
  resolve fs s :=
    match pathOf [] s with
    | some p => if testLink fs p || testLink fs [] then .error .other else .ok p
    | none => .error .other
  canonical := by
    intro fs s p h q t hq
    rw [pathOf] at h
    split at h
    · rename_i p' hp'
      split at hp'
      · cases hp'
        split at h
        · cases h
        · rename_i hlink
          cases h
          simp only [Bool.or_eq_true, not_or] at hlink
          intro hget
          have hq' : q = [⟨s, by assumption⟩] ∨ q = [] := by
            simpa using List.suffix_cons_iff.mp hq
          rcases hq' with rfl | rfl
          · exact hlink.1 (by rw [testLink, hget])
          · exact hlink.2 (by rw [testLink, hget])
      · cases hp'
    · cases h

def byteOrder : Collation where
  le a b := decide (a ≤ b)
  trans a b c := by simpa using le_trans
  total a b := by simpa using le_total a b
  antisymm a b := by simpa using le_antisymm

/-- The SHA-256 digest of no bytes; the archives here are empty. -/
def emptyDigest : Bytes → Str :=
  fun _ => "e3b0c44298fc1c149afbf4c8996fb92427ae41e4649b934ca495991b7852b855".toList

def sixArguments : Arguments :=
  ⟨"compiler".toList, "v1.0".toList, REPOSITORY, "1".toList, "in".toList, "out".toList⟩

theorem bundleCheck_sixArchives :
    (main emptyDigest rootResolver (fun _ => .ok sixArguments) [] sixArchives).1 = .ok () ∧
    bundleCheck byteOrder
      (main emptyDigest rootResolver (fun _ => .ok sixArguments) [] sixArchives).2.fs [outDir] =
      .ok () := by
  have hok : (main emptyDigest rootResolver (fun _ => .ok sixArguments) [] sixArchives).1 =
      .ok () := by decide +kernel
  refine ⟨hok, ?_⟩
  exact ((bundleCheck_exact byteOrder).2 emptyDigest rootResolver _ [] sixArchives [inDir] [outDir]
    (by decide +kernel) hok).1

end Release
