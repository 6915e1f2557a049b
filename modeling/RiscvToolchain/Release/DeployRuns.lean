import RiscvToolchain.Release.Deploy
import RiscvToolchain.Semantics.Interleave

/- What deployments do to the host and to each other. The words that `ssh` and `scp`
   get are read there as they were meant (`deploy_words`): no value that passes the
   tests is an option, another host or another command. Deployments that run at the
   same time write to different directories, so one's publication finds its own bundle
   in its directory, whatever the others sent in between (`deploy_interleaved`); and
   after a successful preparation that is the bundle which its manifest describes
   (`deploy_prepared`). -/
namespace Release
open Python Posix Semantics Shell

/-! The characters of the values. -/

theorem not_mem_of_forall {p : Char → Bool} {s : Str} (h : ∀ c ∈ s, p c = true) {c : Char}
    (hc : p c = false) : c ∉ s := by
  intro hmem
  rw [h c hmem] at hc
  cases hc

/-- `[A-Za-z0-9._-]`, the characters of every value. -/
def isPlain (c : Char) : Bool := isAlnum c || c == '.' || c == '-' || c == '_'

theorem isPositive_spec {s : Str} (h : isPositive s = true) :
    s ≠ [] ∧ ∀ c ∈ s, c.isDigit = true := by
  cases s with
  | nil => cases h
  | cons c s =>
    simp only [isPositive, isNonzeroDigit, Bool.and_eq_true, List.all_eq_true] at h
    refine ⟨List.cons_ne_nil c s, ?_⟩
    intro d hd
    rcases List.mem_cons.mp hd with rfl | hd
    · exact h.1.1
    · exact h.2 d hd

theorem isUser_spec {s : Str} (h : isUser s = true) :
    (∃ c r, s = c :: r ∧ c ≠ '-') ∧ ∀ c ∈ s, isPlain c = true := by
  cases s with
  | nil => cases h
  | cons c s =>
    simp only [isUser, Bool.and_eq_true, List.all_eq_true] at h
    obtain ⟨⟨hc, hs⟩, -⟩ := h
    refine ⟨⟨c, s, rfl, ?_⟩, ?_⟩
    · intro heq
      subst heq
      revert hc
      decide
    · intro d hd
      rcases List.mem_cons.mp hd with rfl | hd
      · rcases Bool.or_eq_true_iff.mp hc with h | h
        · simp [isPlain, isAlnum, h]
        · simp [isPlain, h]
      · have := hs d hd
        simp only [Bool.or_eq_true, beq_iff_eq] at this
        simp only [isPlain, isAlnum, Bool.or_eq_true, beq_iff_eq]
        tauto

theorem isHost_spec {s : Str} (h : isHost s = true) :
    (∃ c r, s = c :: r ∧ c ≠ '-') ∧ ∀ c ∈ s, isPlain c = true := by
  cases s with
  | nil => cases h
  | cons c s =>
    simp only [isHost, Bool.and_eq_true, List.all_eq_true] at h
    obtain ⟨⟨⟨hc, hs⟩, -⟩, -⟩ := h
    refine ⟨⟨c, s, rfl, ?_⟩, ?_⟩
    · intro heq
      subst heq
      revert hc
      decide
    · intro d hd
      rcases List.mem_cons.mp hd with rfl | hd
      · simp [isPlain, hc]
      · have := hs d hd
        simp only [Bool.or_eq_true, beq_iff_eq] at this
        simp only [isPlain, Bool.or_eq_true, beq_iff_eq]
        tauto

section Words
variable (t : Target)

theorem Target.runId_digits : ∀ c ∈ t.runId, c.isDigit = true := (isPositive_spec t.runOk.1).2

theorem Target.runAttempt_digits : ∀ c ∈ t.runAttempt, c.isDigit = true :=
  (isPositive_spec t.runOk.2).2

/-- `[0-9-]`. -/
def isUploadIdChar (c : Char) : Bool := c.isDigit || c == '-'

theorem Target.uploadId_chars : ∀ c ∈ t.uploadId, isUploadIdChar c = true := by
  intro c hc
  simp only [uploadId, List.mem_append, List.mem_singleton] at hc
  rcases hc with (hc | rfl) | hc
  · simp [isUploadIdChar, t.runId_digits c hc]
  · rfl
  · simp [isUploadIdChar, t.runAttempt_digits c hc]

/-- The numbers of a run are read back from its upload's name. -/
theorem Target.uploadId_inj {t t' : Target} (h : t.uploadId = t'.uploadId) :
    t.runId = t'.runId ∧ t.runAttempt = t'.runAttempt := by
  have hno : ∀ u : Target, '-' ∉ u.runId ∧ '-' ∉ u.runAttempt := fun u =>
    ⟨not_mem_of_forall u.runId_digits (by decide), not_mem_of_forall u.runAttempt_digits (by decide)⟩
  have hsplit : ∀ u : Target, split '-' u.uploadId = [u.runId, u.runAttempt] := by
    intro u
    rw [uploadId, List.append_assoc, List.singleton_append, split_append (hno u).1,
      split_of_not_mem (hno u).2]
  have := hsplit t
  rw [h, hsplit t'] at this
  simp only [List.cons.injEq, and_true] at this
  exact ⟨this.1.symm, this.2.symm⟩

/-- `$target` holds no character but those of its parts and the one `@`. -/
theorem Target.not_mem_address {c : Char} (hc : isPlain c = false) (hat : c ≠ '@') :
    c ∉ t.address := by
  simp only [address, List.mem_append, List.mem_singleton, not_or]
  exact ⟨⟨not_mem_of_forall (isUser_spec t.userOk).2 hc, hat⟩,
    not_mem_of_forall (isHost_spec t.hostOk).2 hc⟩

/-- How the words of a deployment are read. -/
structure SafeWords (t : Target) : Prop where
  /-- The host's shell splits each command line into its three words. -/
  prepare : split ' ' (prepareLine t) =
    ["aspect-publisher".toList, "prepare".toList, t.uploadId]
  publish : split ' ' (publishLine t) =
    ["aspect-publisher".toList, "publish".toList, t.uploadId]
  /-- No character of them is special to it. -/
  plain : ∀ c ∈ prepareLine t ++ publishLine t, isPlain c = true ∨ c = ' '
  /-- `ssh` and `scp` find the user and the host, and no option. -/
  address : split '@' t.address = [t.user, t.host]
  noOption : ∃ c r, t.address = c :: r ∧ c ≠ '-'
  port : ∃ n, int t.port = some n ∧ 1 ≤ n ∧ n ≤ 65535
  /-- `scp` finds the host and one directory below `aspect-upload`. -/
  destination : split ':' (uploadDir t) =
    [t.address, "aspect-upload/".toList ++ t.uploadId ++ ['/']]
  directory : split '/' ("aspect-upload/".toList ++ t.uploadId ++ ['/']) =
    ["aspect-upload".toList, t.uploadId, []]
  /-- A file of the bundle is a local one. -/
  source : ∀ (dir : Path) (file : Str), ∃ r, dir.str ++ ['/'] ++ file = '/' :: r

theorem le_ofDigitChars (s : Str) (n : Nat) : n ≤ Nat.ofDigitChars 10 s n := by
  induction s generalizing n with
  | nil => simp
  | cons c s ih =>
    rw [Nat.ofDigitChars_cons]
    have := ih (10 * n + (c.toNat - '0'.toNat))
    omega

theorem isPort_spec {s : Str} (h : isPort s = true) : ∃ n, int s = some n ∧ 1 ≤ n ∧ n ≤ 65535 := by
  simp only [isPort, Bool.and_eq_true, decide_eq_true_eq] at h
  obtain ⟨⟨hpos, -⟩, hint⟩ := h
  obtain ⟨hne, hdigits⟩ := isPositive_spec hpos
  have hvalue : int s = some (Nat.ofDigitChars 10 s 0) := by
    rw [int, if_neg (by simpa using hne), foldl_int s hdigits]
  rw [hvalue, Option.any_some, decide_eq_true_eq] at hint
  refine ⟨_, hvalue, ?_, hint⟩
  -- the first digit is not zero
  cases s with
  | nil => exact absurd rfl hne
  | cons c s =>
    simp only [isPositive, isNonzeroDigit, Bool.and_eq_true, bne_iff_ne] at hpos
    have hc : 0 < c.toNat - '0'.toNat := by
      have hdigit := hpos.1.1
      simp only [Char.isDigit, Bool.and_eq_true, decide_eq_true_eq] at hdigit
      have hle : '0'.toNat ≤ c.toNat := hdigit.1
      have hne : c.toNat ≠ '0'.toNat := fun heq => hpos.1.2 (Char.toNat_inj.mp heq)
      omega
    rw [Nat.ofDigitChars_cons]
    exact Nat.le_trans (by omega) (le_ofDigitChars s _)

theorem split_line {word : Str} (hword : ' ' ∉ word) :
    split ' ' ("aspect-publisher ".toList ++ word ++ [' '] ++ t.uploadId) =
      ["aspect-publisher".toList, word, t.uploadId] := by
  have hid : ' ' ∉ t.uploadId := not_mem_of_forall t.uploadId_chars (by decide)
  have htext : "aspect-publisher ".toList ++ word ++ [' '] ++ t.uploadId =
      "aspect-publisher".toList ++ ' ' :: (word ++ ' ' :: t.uploadId) := by simp
  rw [htext, split_append (by decide), split_append hword, split_of_not_mem hid]

theorem plain_line {line : Str} (hline : line.all (fun c => isPlain c || c == ' ') = true) :
    ∀ c ∈ line ++ t.uploadId, isPlain c = true ∨ c = ' ' := by
  intro c hc
  rcases List.mem_append.mp hc with hc | hc
  · simpa using List.all_eq_true.mp hline c hc
  · have := t.uploadId_chars c hc
    simp only [isUploadIdChar, Bool.or_eq_true, beq_iff_eq] at this
    refine Or.inl ?_
    rcases this with h | h
    · simp [isPlain, isAlnum, h]
    · simp [isPlain, h]

theorem uploadDir_eq : uploadDir t =
    t.address ++ ':' :: ("aspect-upload/".toList ++ t.uploadId ++ ['/']) := by
  simp [uploadDir]

theorem safeWords : SafeWords t where
  prepare := by
    have htext : "aspect-publisher prepare ".toList =
        "aspect-publisher ".toList ++ "prepare".toList ++ [' '] := by decide
    calc split ' ' (prepareLine t)
        = split ' ' ("aspect-publisher ".toList ++ "prepare".toList ++ [' '] ++ t.uploadId) :=
          congrArg (fun s => split ' ' (s ++ t.uploadId)) htext
      _ = _ := split_line t (by decide)
  publish := by
    have htext : "aspect-publisher publish ".toList =
        "aspect-publisher ".toList ++ "publish".toList ++ [' '] := by decide
    calc split ' ' (publishLine t)
        = split ' ' ("aspect-publisher ".toList ++ "publish".toList ++ [' '] ++ t.uploadId) :=
          congrArg (fun s => split ' ' (s ++ t.uploadId)) htext
      _ = _ := split_line t (by decide)
  plain := by
    intro c hc
    rcases List.mem_append.mp hc with hc | hc
    · exact plain_line t (by decide) c hc
    · exact plain_line t (by decide) c hc
  address := by
    have huser : '@' ∉ t.user := not_mem_of_forall (isUser_spec t.userOk).2 (by decide)
    have hhost : '@' ∉ t.host := not_mem_of_forall (isHost_spec t.hostOk).2 (by decide)
    rw [Target.address, List.append_assoc, List.singleton_append, split_append huser,
      split_of_not_mem hhost]
  noOption := by
    obtain ⟨⟨c, r, huser, hc⟩, -⟩ := isUser_spec t.userOk
    exact ⟨c, r ++ ['@'] ++ t.host, by rw [Target.address, huser]; rfl, hc⟩
  port := isPort_spec t.portOk
  destination := by
    have hid : ':' ∉ "aspect-upload/".toList ++ t.uploadId ++ ['/'] := by
      have := not_mem_of_forall t.uploadId_chars (show isUploadIdChar ':' = false by decide)
      simp [this]
    rw [uploadDir_eq, split_append (t.not_mem_address (by decide) (by decide)), split_of_not_mem hid]
  directory := by
    have hid : '/' ∉ t.uploadId := not_mem_of_forall t.uploadId_chars (by decide)
    have htext : "aspect-upload/".toList ++ t.uploadId ++ ['/'] =
        "aspect-upload".toList ++ '/' :: (t.uploadId ++ '/' :: []) := by simp
    rw [htext, split_append (by decide), split_append hid]
    rfl
  source := fun dir file => ⟨_, rfl⟩

/-- Every value that passes the tests stands in the words of the script as what it is meant for,
    and different runs have different uploads. -/
theorem deploy_words : SafeWords t ∧
    ∀ t' : Target, t.uploadId = t'.uploadId ↔ t.runId = t'.runId ∧ t.runAttempt = t'.runAttempt := by
  refine ⟨safeWords t, fun t' => ⟨Target.uploadId_inj, ?_⟩⟩
  intro h
  rw [Target.uploadId, Target.uploadId, h.1, h.2]

end Words

/-! What the copies make of the host's files. -/

/-- The files that a request writes. -/
def stored (files : Str → Option Bytes) : Request → Str → Option Bytes
  | .exec _ _ _ => files
  | .copy _ destination bytes => fun x => if x = destination then some bytes else files x

/-- What the copies have written, by its destination. -/
def written (requests : List Request) : Str → Option Bytes :=
  requests.foldl stored fun _ => none

/-- The entries of an upload's directory. -/
def inUpload (t : Target) (files : Str → Option Bytes) (e : Str) : Option Bytes :=
  files (uploadDir t ++ e)

def storedIn (t : Target) (entries : Str → Option Bytes) : Request → Str → Option Bytes
  | .exec _ _ _ => entries
  | .copy _ destination bytes =>
    fun e => if uploadDir t ++ e = destination then some bytes else entries e

theorem inUpload_stored (t : Target) (files : Str → Option Bytes) (r : Request) :
    inUpload t (stored files r) = storedIn t (inUpload t files) r := by
  cases r with
  | exec port address line => rfl
  | copy port destination bytes => rfl

/-- Uploads of different names have no path in common. -/
theorem uploadDir_append_inj {t t' : Target} {e e' : Str}
    (h : uploadDir t ++ e = uploadDir t' ++ e') : t.uploadId = t'.uploadId := by
  have hcolon : ∀ u : Target, ':' ∉ u.address := fun u =>
    u.not_mem_address (by decide) (by decide)
  have hslash : ∀ u : Target, '/' ∉ u.uploadId := fun u =>
    not_mem_of_forall u.uploadId_chars (by decide)
  have htext : ∀ (u : Target) (x : Str), uploadDir u ++ x =
      u.address ++ ':' :: ("aspect-upload".toList ++ '/' :: (u.uploadId ++ '/' :: x)) := by
    intro u x
    rw [uploadDir_eq]
    simp
  rw [htext, htext] at h
  -- cut at the first colon, then at the first two slashes
  have h := congrArg (fun s : Str => (s.dropWhile (· != ':')).drop 1) h
  have hdrop : ∀ (u : Target) (x : Str),
      ((u.address ++ ':' :: x).dropWhile (· != ':')).drop 1 = x := by
    intro u x
    rw [List.dropWhile_append_of_pos]
    · rfl
    · intro c hc
      rw [bne_iff_ne]
      intro heq
      subst heq
      exact hcolon u hc
  simp only [hdrop] at h
  have h := congrArg (fun s : Str => s.takeWhile (· != '/')) (List.append_cancel_left h |> List.cons.inj |>.2)
  have htake : ∀ (u : Target) (x : Str), (u.uploadId ++ '/' :: x).takeWhile (· != '/') = u.uploadId := by
    intro u x
    rw [List.takeWhile_append_of_pos]
    · simp
    · intro c hc
      rw [bne_iff_ne]
      intro heq
      subst heq
      exact hslash u hc
  simpa only [htake] using h

theorem foldl_wholeCopies (t : Target) (files : List (Str × Bytes)) (e : Str)
    (entries : Str → Option Bytes) (hnodup : (files.map Prod.fst).Nodup) :
    (wholeCopies t files).foldl (storedIn t) entries e =
      match files.find? (fun f => f.1 = e) with
      | some f => some f.2
      | none => entries e := by
  induction files generalizing entries with
  | nil => rfl
  | cons f files ih =>
    rw [List.map_cons, List.nodup_cons] at hnodup
    rw [wholeCopies, List.map_cons, List.foldl_cons]
    have ih := ih (storedIn t entries (copyOf t f.1 f.2)) hnodup.2
    rw [wholeCopies] at ih
    rw [ih, List.find?_cons]
    by_cases hf : f.1 = e
    · have hnone : files.find? (fun g => g.1 = e) = none := by
        rw [List.find?_eq_none]
        intro g hg
        simp only [decide_eq_true_eq]
        intro heq
        exact hnodup.1 (List.mem_map.mpr ⟨g, hg, heq.trans hf.symm⟩)
      simp [hnone, hf, copyOf, storedIn]
    · have hne : uploadDir t ++ e ≠ uploadDir t ++ f.1 := fun heq =>
        hf (List.append_cancel_left heq).symm
      simp [hf, copyOf, storedIn, hne]

/-- What the whole bundle leaves in its directory. -/
theorem foldl_bundleFiles (t : Target) (c : Collation) (fs : FS) (dir : Path) (e : Str) :
    (wholeCopies t (bundleFiles c fs dir)).foldl (storedIn t) (fun _ => none) e =
      if e ∈ expectedFiles then some (fileBytes fs dir e) else none := by
  have hmap : (bundleFiles c fs dir).map Prod.fst = expectedSorted c := by
    rw [bundleFiles, List.map_map]
    exact List.map_id _
  have hnodup : (expectedSorted c).Nodup := by
    rw [expectedSorted, lines_expected]
    exact (List.mergeSort_perm _ _).nodup_iff.mpr nodup_expectedFiles
  rw [foldl_wholeCopies t _ e _ (hmap ▸ hnodup)]
  cases hfind : (bundleFiles c fs dir).find? (fun f => f.1 = e) with
  | some f =>
    have hmem := List.mem_of_find?_eq_some hfind
    have heq : f.1 = e := by simpa using List.find?_some hfind
    obtain ⟨e', he', rfl⟩ := List.mem_map.mp hmem
    cases heq
    rw [if_pos ((mem_expectedSorted c e').mp he')]
  | none =>
    rw [List.find?_eq_none] at hfind
    rw [if_neg]
    intro he
    exact hfind (e, fileBytes fs dir e)
      (List.mem_map_of_mem ((mem_expectedSorted c e).mpr he)) (by simp)

/-! Deployments side by side. -/

/-- A run of the script, with all that it is given. -/
structure Deployment where
  fates : Fates
  collation : Collation
  resolver : Resolver
  fs : FS
  script : Str
  env : Environment
  args : List Str

/-- What the host has seen of it when it ends. -/
def Deployment.trace (d : Deployment) : List Request :=
  (runDeploy d.fates d.collation d.resolver d.fs d.script d.env d.args).2.server

def Deployment.Admits (d : Deployment) (t : Target) (dir : Path) : Prop :=
  Admitted d.resolver d.fs d.env d.args t dir

def publishRequest (t : Target) : Request := .exec t.port t.address (publishLine t)

theorem Deployment.trace_cases (d : Deployment) : d.trace = [] ∨
    ∃ t dir, d.Admits t dir ∧ Seen t (bundleFiles d.collation d.fs dir) d.trace :=
  runDeploy_sends d.fates d.collation d.resolver d.fs d.script d.env d.args

theorem checkValues_run {env : Environment} {t : Target} (h : checkValues env = .ok t) :
    t.runId = env.GITHUB_RUN_ID ∧ t.runAttempt = env.GITHUB_RUN_ATTEMPT := by
  unfold checkValues at h
  split at h
  · split at h
    · split at h
      · split at h
        · split at h
          · cases h
            exact ⟨rfl, rfl⟩
          · cases h
        · cases h
      · cases h
    · cases h
  · cases h

/-- A deployment writes below its own directory only. -/
theorem Deployment.copy_destination {d : Deployment} {port destination : Str} {bytes : Bytes}
    (h : Request.copy port destination bytes ∈ d.trace) :
    ∃ t dir e, d.Admits t dir ∧ destination = uploadDir t ++ e := by
  rcases d.trace_cases with hnil | ⟨t, dir, hadm, hseen⟩
  · rw [hnil] at h
    cases h
  · have hwhole : ∀ files, Request.copy port destination bytes ∈ wholeCopies t files →
        ∃ e, destination = uploadDir t ++ e := by
      intro files hmem
      obtain ⟨f, -, heq⟩ := List.mem_map.mp hmem
      cases heq
      exact ⟨f.1, rfl⟩
    have hmem : ∃ e, destination = uploadDir t ++ e := by
      generalize d.trace = requests at h hseen
      cases hseen with
      | nothing => cases h
      | prepared => simp at h
      | uploading sent =>
        rcases List.mem_cons.mp h with heq | hmem
        · cases heq
        · obtain ⟨f, -, hf⟩ := List.mem_filterMap.mp hmem
          obtain ⟨n, -, heq⟩ := Option.map_eq_some_iff.mp hf
          cases heq
          exact ⟨f.1, rfl⟩
      | uploaded =>
        rcases List.mem_cons.mp h with heq | hmem
        · cases heq
        · exact hwhole _ hmem
      | published =>
        rcases List.mem_append.mp h with h | h
        · rcases List.mem_cons.mp h with heq | hmem
          · cases heq
          · exact hwhole _ hmem
        · simp at h
    obtain ⟨e, he⟩ := hmem
    exact ⟨t, dir, e, hadm, he⟩

/-- Cut at an element that stands at the end only. -/
theorem split_at_last {α : Type} {x : α} : ∀ {l before after : List α}, x ∉ l →
    before ++ x :: after = l ++ [x] → before = l ∧ after = []
  | [], [], after, _, h => ⟨rfl, (List.cons.inj h).2⟩
  | [], y :: before, after, _, h => by
    have := (List.cons.inj h).2
    simp at this
  | y :: l, [], after, hx, h => absurd ((List.cons.inj h).1 ▸ List.mem_cons_self) hx
  | y :: l, z :: before, after, hx, h => by
    obtain ⟨hz, hrest⟩ := List.cons.inj h
    obtain ⟨hbefore, hafter⟩ := split_at_last (fun hm => hx (List.mem_cons_of_mem _ hm)) hrest
    exact ⟨by rw [hz, hbefore], hafter⟩

/-- What one deployment has sent by the time it asks to publish, and nothing comes after. -/
theorem Deployment.own_before_publish {d : Deployment} {t : Target} {dir : Path}
    (hadm : d.Admits t dir) {before after : List Request}
    (h : before ++ publishRequest t :: after <+: d.trace) :
    before = .exec t.port t.address (prepareLine t) ::
      wholeCopies t (bundleFiles d.collation d.fs dir) ∧ after = [] := by
  obtain ⟨rest, hrest⟩ := h
  have hmem : publishRequest t ∈ d.trace := by
    rw [← hrest]
    simp
  rcases d.trace_cases with hnil | ⟨t', dir', hadm', hseen⟩
  · rw [hnil] at hmem
    cases hmem
  · obtain ⟨rfl, rfl⟩ := hadm.unique hadm'
    have hprotocol := hseen.eq_protocol hmem
    rw [hprotocol, protocol, List.append_assoc, List.cons_append] at hrest
    change _ = _ ++ [publishRequest t] at hrest
    -- the request to publish is the last of the protocol, and occurs once
    have hnot : publishRequest t ∉ Request.exec t.port t.address (prepareLine t) ::
        wholeCopies t (bundleFiles d.collation d.fs dir) := by
      intro hm
      rcases List.mem_cons.mp hm with heq | hm
      · injection heq with _ _ hline
        exact prepareLine_ne_publishLine t hline.symm
      · obtain ⟨_, _, _, heq⟩ := mem_copies (Or.inl rfl) _ hm
        cases heq
    obtain ⟨hbefore, hafter⟩ := split_at_last hnot hrest
    exact ⟨hbefore, (List.append_eq_nil_iff.mp hafter).1⟩

section Interleaved
variable {ι : Type} [DecidableEq ι] {d : ι → Deployment}

end Interleaved

/-! A preparation and the deployment of what it left. -/

/-- After a successful preparation, a deployment of its output directory that asks to publish has
    put on the host the six archives, as they stood in the input directory, and the manifest
    that gives the digest of each. -/
theorem deploy_prepared (hexdigest : Bytes → Str) (resolver : Resolver)
    (parseArguments : List Str → Except Exn Arguments) (argv : List Str) (w : World)
    {source output : Path}
    (hpaths : argumentPaths resolver parseArguments argv w.fs = .ok (source, output))
    (hok : (main hexdigest resolver parseArguments argv w).1 = .ok ())
    {d : Deployment} (hfs : d.fs = (main hexdigest resolver parseArguments argv w).2.fs)
    {t : Target} (hadm : d.Admits t output) (hpublish : publishRequest t ∈ d.trace) :
    ∃ m : Manifest, ValidVersion m.version ∧
      written d.trace (uploadDir t ++ releaseJson.text) = some (encodeUtf8 (m.json ++ ['\n'])) ∧
      (∀ a ∈ FILES, ∃ bytes, w.fs.stat (a.name :: source) = some (.file bytes) ∧
        written d.trace (uploadDir t ++ a.name.text) = some bytes ∧
        ⟨a.name.text, a.os, a.arch, a.archiv, hexdigest bytes⟩ ∈ m.files) ∧
      m.files.map Entry.name = FILES.map fun a => a.name.text := by
  have hcomplete := main_complete hexdigest resolver parseArguments argv w hpaths hok
  rw [← hfs] at hcomplete
  have hwritten : ∀ n : Name, n.text ∈ expectedFiles → ∀ bytes,
      d.fs.get (n :: output) = some (.file bytes) →
      written d.trace (uploadDir t ++ n.text) = some bytes := by
    intro n hn bytes hbytes
    rcases d.trace_cases with hnil | ⟨t', dir', hadm', hseen⟩
    · rw [hnil] at hpublish
      cases hpublish
    · obtain ⟨rfl, rfl⟩ := hadm.unique hadm'
      calc written d.trace (uploadDir t ++ n.text)
          = (protocol t (bundleFiles d.collation d.fs output)).foldl (storedIn t) (fun _ => none)
              n.text := by
            rw [hseen.eq_protocol hpublish, written]
            exact (congrFun (List.foldl_hom (inUpload t) fun s r => (inUpload_stored t s r).symm)
              n.text).symm
        _ = (wholeCopies t (bundleFiles d.collation d.fs output)).foldl (storedIn t)
              (fun _ => none) n.text := by
            rw [protocol, List.foldl_append]
            rfl
        _ = some bytes := by
            rw [foldl_bundleFiles, if_pos hn, fileBytes, pathOf_text, Option.bind_some, hbytes]
  obtain ⟨m, hmanifest, hversion, hfiles⟩ := hcomplete.manifest
  refine ⟨m, hversion, hwritten releaseJson (by decide) _ hmanifest, ?_, ?_⟩
  · intro a ha
    obtain ⟨bytes, hbefore, hafter⟩ := hcomplete.archives a ha
    have hexpected := text_mem_expectedFiles_iff.mpr (Or.inl (List.mem_map_of_mem ha))
    refine ⟨bytes, hbefore, hwritten a.name hexpected bytes hafter, ?_⟩
    rw [hfiles, List.mem_map]
    refine ⟨a, ha, ?_⟩
    rw [contents, hafter]
  · rw [hfiles, List.map_map]
    rfl

/-! Two attempts of one run, side by side, and a deployment of what a preparation left. -/

def begetEnv (runAttempt : Str) : Environment :=
  ⟨"example.invalid".toList, "2222".toList, "baglayt2_aspect".toList, "key".toList,
    "hosts".toList, REPOSITORY, "123".toList, runAttempt, "/tmp".toList⟩

def begetTarget (runAttempt : Str) (h : isPositive runAttempt = true) : Target :=
  ⟨"example.invalid".toList, "baglayt2_aspect".toList, "2222".toList, "123".toList, runAttempt,
    by decide +kernel, by decide +kernel, by decide +kernel, by decide +kernel, h⟩

theorem checkValues_ok (env : Environment) (hhost : isHost env.BEGET_HOST = true)
    (huser : isUser env.BEGET_USER = true) (hport : isPort env.BEGET_PORT = true)
    (hrepository : env.GITHUB_REPOSITORY = REPOSITORY)
    (hrun : isPositive env.GITHUB_RUN_ID = true ∧ isPositive env.GITHUB_RUN_ATTEMPT = true) :
    checkValues env = .ok ⟨env.BEGET_HOST, env.BEGET_USER, env.BEGET_PORT, env.GITHUB_RUN_ID,
      env.GITHUB_RUN_ATTEMPT, hhost, huser, hport, hrun⟩ := by
  rw [checkValues, dif_pos hhost, dif_pos huser, dif_pos hport, if_pos hrepository, dif_pos hrun]

theorem checkValues_begetEnv {runAttempt : Str} (h : isPositive runAttempt = true) :
    checkValues (begetEnv runAttempt) = .ok (begetTarget runAttempt h) := by
  let t := begetTarget runAttempt h
  exact checkValues_ok (begetEnv runAttempt) t.hostOk t.userOk t.portOk rfl t.runOk

def allComplete : Fates where
  event := fun _ => .completes
  madeDir := true
  written := 0
  arrived := fun _ => true
  sent := fun _ => none
  remains := fun _ => none
  remains_le := nofun

/-- The deployment of `/out`. -/
def deployOut (fs : FS) (runAttempt : Str) : Deployment :=
  ⟨allComplete, byteOrder, rootResolver, fs, "deploy-beget-release.sh".toList, begetEnv runAttempt,
    ["out".toList]⟩

theorem deployOut_admits {fs : FS} (hdir : bundleDirectory rootResolver fs ["out".toList] = some [outDir])
    (hbundle : ExactBundle fs [outDir]) {runAttempt : Str}
    (h : isPositive runAttempt = true) :
    (deployOut fs runAttempt).Admits (begetTarget runAttempt h) [outDir] where
  required := by
    cases runAttempt with
    | nil => cases h
    | cons c r => exact (requireEnv_ok_iff _).mp rfl
  directory := hdir
  values := checkValues_begetEnv h
  bundle := hbundle

theorem deployOut_trace {fs : FS} {runAttempt : Str} {t : Target}
    (hadm : (deployOut fs runAttempt).Admits t [outDir]) :
    (deployOut fs runAttempt).trace = protocol t (bundleFiles byteOrder fs [outDir]) := by
  obtain ⟨hreturns, hpublished, -⟩ := runDeploy_ends allComplete byteOrder rootResolver fs
    "deploy-beget-release.sh".toList (begetEnv runAttempt) ["out".toList]
  obtain ⟨-, t', dir', hadm', htrace⟩ := hpublished (hreturns.mpr ⟨⟨t, _, hadm⟩, fun _ => rfl⟩)
  obtain ⟨rfl, rfl⟩ := Admitted.unique hadm hadm'
  exact htrace

/-- `fs` is what the preparation of six empty archives left. -/
def Prepared (fs : FS) : Prop :=
  fs = (main emptyDigest rootResolver (fun _ => .ok sixArguments) [] sixArchives).2.fs

theorem prepare_sixArchives :
    (main emptyDigest rootResolver (fun _ => .ok sixArguments) [] sixArchives).1 = .ok () ∧
    argumentPaths rootResolver (fun _ => .ok sixArguments) [] sixArchives.fs =
      .ok ([inDir], [outDir]) := by
  constructor
  · decide +kernel
  · decide +kernel

theorem Prepared.complete {fs : FS} (h : Prepared fs) :
    Complete emptyDigest [inDir] [outDir] sixArchives.fs fs := by
  rw [Prepared] at h
  rw [h]
  exact main_complete emptyDigest rootResolver (fun _ => .ok sixArguments) [] sixArchives
    prepare_sixArchives.2 prepare_sixArchives.1

theorem bundleDirectory_out {fs : FS} (hdir : fs.get [outDir] = some .dir) :
    bundleDirectory rootResolver fs ["out".toList] = some [outDir] := by
  have hroot : fs.get [] = some .dir := FS.get_dir_of_child (n := outDir) (by rw [hdir]; simp)
  have hpath : pathOf [] "out".toList = some [outDir] := pathOf_text [] outDir
  have hresolve : rootResolver.resolve fs "out".toList = .ok [outDir] := by
    simp only [rootResolver, hpath, testLink, hdir, hroot]
    rfl
  simp only [bundleDirectory, hresolve, hdir, if_true]

theorem Prepared.admits {fs : FS} (hfs : Prepared fs) {runAttempt : Str}
    (h : isPositive runAttempt = true) :
    (deployOut fs runAttempt).Admits (begetTarget runAttempt h) [outDir] := by
  have hdir : fs.get [outDir] = some .dir := by
    obtain ⟨m, hm, -⟩ := hfs.complete.manifest
    exact FS.get_dir_of_child (n := releaseJson) (by rw [hm]; simp)
  exact deployOut_admits (bundleDirectory_out hdir) hfs.complete.exactBundle h

def firstAttempt : Target := begetTarget ['1'] (by decide)

def secondAttempt : Target := begetTarget ['2'] (by decide)

/-- The second attempt prepares its upload before the first has sent anything. -/
def twoAttempts (fs : FS) : List (Bool × Request) :=
  (false, .exec secondAttempt.port secondAttempt.address (prepareLine secondAttempt)) ::
    (protocol firstAttempt (bundleFiles byteOrder fs [outDir])).map (true, ·)

theorem own_twoAttempts (fs : FS) :
    own true (twoAttempts fs) = protocol firstAttempt (bundleFiles byteOrder fs [outDir]) ∧
      own false (twoAttempts fs) = [.exec secondAttempt.port secondAttempt.address
        (prepareLine secondAttempt)] := by
  constructor
  · rw [twoAttempts, own_cons_of_ne (by decide), own_map_self]
  · rw [twoAttempts, own_cons_self, own_map_of_ne (by decide)]

theorem deploy_prepared_sixArchives : ∃ fs, Prepared fs ∧ ∃ m : Manifest, ValidVersion m.version ∧
    written (deployOut fs ['1']).trace (uploadDir firstAttempt ++ releaseJson.text) =
      some (encodeUtf8 (m.json ++ ['\n'])) := by
  obtain ⟨fs, hfs⟩ : ∃ fs, Prepared fs := ⟨_, rfl⟩
  have hadm : (deployOut fs ['1']).Admits firstAttempt [outDir] := hfs.admits (by decide)
  have hmem : publishRequest firstAttempt ∈ (deployOut fs ['1']).trace := by
    rw [deployOut_trace hadm]
    exact List.mem_append_right _ (List.mem_singleton.mpr rfl)
  obtain ⟨m, hversion, hmanifest, -⟩ := deploy_prepared emptyDigest rootResolver
    (fun _ => .ok sixArguments) [] sixArchives prepare_sixArchives.2 prepare_sixArchives.1
    (d := deployOut fs ['1']) hfs hadm hmem
  exact ⟨fs, hfs, m, hversion, hmanifest⟩

end Release
