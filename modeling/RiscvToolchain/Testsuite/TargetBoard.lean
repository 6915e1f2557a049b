import RiscvToolchain.Testsuite.Filter

/- `scripts/generate_target_board`, and that its boards survive the way to
   `testsuite-filter`.

   Correspondence (Python ↔ Lean):
     `generate_one_target_board`  ↔ `generateOneTargetBoard`
     `main`                       ↔ `generateTargetBoards`, the text it prints
   A request is a list of arch-abi pairs and a list of extra tests; the strings of
   the command line are its rendering. The boards of the printed list, decoded as
   `filter_result` decodes a variation, are the requested configurations in order
   (`decode_generateTargetBoards`), for every code model whose name holds neither of
   the two separators a board stands between. -/
namespace Testsuite
open Python

/-- The options `parse_options` returns. -/
structure BoardOptions where
  simName : Str
  buildArchAbi : Str
  extraTestArchAbiFlagsList : Str
  cmodel : Str

/-- One board; `none` is the `IndexError` of an arch-abi without `-`. -/
def generateOneTargetBoard (archAbi flags : Str) (options : BoardOptions) : Option Str :=
  match split '-' archAbi with
  | arch :: abi :: _ =>
    let board := options.simName ++ ("/-march=".toList ++ (arch ++ ("/-mabi=".toList ++
      (abi ++ ("/-mcmodel=".toList ++ options.cmodel)))))
    if flags.length = 0 then some board
    else some (board ++ '/' :: replace [':'] ['/'] flags)
  | _ => none

/-- The boards of one extra test. -/
def extraTestBoards (options : BoardOptions) (extraTest : Str) : Option (List Str) :=
  match find ':' extraTest with
  | none => (generateOneTargetBoard extraTest [] options).map ([·])
  | some idx =>
    (split ',' (extraTest.drop (idx + 1))).mapM fun flag =>
      generateOneTargetBoard (extraTest.take idx) flag options

/-- The boards of all extra tests. -/
def extraBoards (options : BoardOptions) : Option (List (List Str)) :=
  if options.extraTestArchAbiFlagsList = [] then some []
  else (split ';' options.extraTestArchAbiFlagsList).mapM (extraTestBoards options)

/-- `arch_abi_list`. -/
def archAbiList (options : BoardOptions) : List Str :=
  if ' ' ∈ options.buildArchAbi then split ' ' options.buildArchAbi else [options.buildArchAbi]

def emptyMessage : Str :=
  "The --sim-name and/or --build-arch-abi cannot be empty or null.".toList

/-- The text `main` prints; `none` is an exception. -/
def generateTargetBoards (options : BoardOptions) : Option Str :=
  if options.simName = [] ∨ options.buildArchAbi = [] then some emptyMessage
  else do
    let boards ← (archAbiList options).mapM fun oneArchAbi =>
      generateOneTargetBoard oneArchAbi [] options
    let extra ← extraBoards options
    return join [' '] (boards ++ extra.flatten)

/-! Requests. -/

/-- The characters neither an arch nor an abi holds. -/
def boardSeparators : Str := "-:;,/ ".toList

structure ArchAbi where
  arch : Str
  abi : Str
  arch_valid : ∀ c ∈ boardSeparators, c ∉ arch
  abi_valid : ∀ c ∈ boardSeparators, c ∉ abi

/-- A flag of an extra test, one that `filter_result` does not take for an option of its own. -/
structure Flag where
  text : Str
  ne_nil : text ≠ []
  valid : ∀ c ∈ ",;:/ ".toList, c ∉ text
  other : ¬ "-march".toList <+: text ∧ ¬ "-mabi".toList <+: text ∧ ¬ "-mcmodel".toList <+: text ∧
    text ≠ "riscv-sim".toList

/-- An extra test: without alternatives it is written without `:`. -/
structure ExtraTest where
  archAbi : ArchAbi
  alternatives : List (List Flag)

def ArchAbi.render (p : ArchAbi) : Str := p.arch ++ '-' :: p.abi

def renderFlags (flags : List Flag) : Str := join [':'] (flags.map Flag.text)

def ExtraTest.render (t : ExtraTest) : Str :=
  if t.alternatives = [] then t.archAbi.render
  else t.archAbi.render ++ ':' :: join [','] (t.alternatives.map renderFlags)

/-- The flags of the boards of a test: one board without flags if it has no alternatives. -/
def ExtraTest.boards (t : ExtraTest) : List (List Flag) :=
  if t.alternatives = [] then [[]] else t.alternatives

def ArchAbi.config (p : ArchAbi) (cmodel : Str) (flags : List Flag) : Config :=
  ⟨p.arch, p.abi, cmodel, renderFlags flags⟩

/-- The configurations a request asks for, in order. -/
def requested (cmodel : Str) (pairs : List ArchAbi) (tests : List ExtraTest) : List Config :=
  pairs.map (fun p => p.config cmodel []) ++
    tests.flatMap fun t => t.boards.map fun flags => t.archAbi.config cmodel flags

def requestOptions (cmodel : Str) (pairs : List ArchAbi) (tests : List ExtraTest) : BoardOptions where
  simName := "riscv-sim".toList
  buildArchAbi := join [' '] (pairs.map ArchAbi.render)
  extraTestArchAbiFlagsList := join [';'] (tests.map ExtraTest.render)
  cmodel := cmodel

/-! Separators in what is rendered. -/

theorem ArchAbi.not_mem_render (p : ArchAbi) {c : Char} (hc : c ∈ boardSeparators) (hd : c ≠ '-') :
    c ∉ p.render := by
  simp [ArchAbi.render, p.arch_valid c hc, p.abi_valid c hc, hd]

theorem Flag.not_mem_renderFlags {flags : List Flag} {c : Char} (hc : c ∈ ",;:/ ".toList)
    (hsep : c ≠ ':') : c ∉ renderFlags flags := by
  apply not_mem_join (by simpa using hsep)
  intro w hw
  obtain ⟨f, -, rfl⟩ := List.mem_map.mp hw
  exact f.valid c hc

theorem ExtraTest.not_mem_render (t : ExtraTest) : ';' ∉ t.render := by
  have hp := t.archAbi.not_mem_render (c := ';') (by decide) (by decide)
  rw [ExtraTest.render]
  split
  · exact hp
  · have hj : ';' ∉ join [','] (t.alternatives.map renderFlags) := by
      apply not_mem_join (by decide)
      intro w hw
      obtain ⟨flags, -, rfl⟩ := List.mem_map.mp hw
      exact Flag.not_mem_renderFlags (by decide) (by decide)
    simp [hp, hj]

theorem ArchAbi.render_ne_nil (p : ArchAbi) : p.render ≠ [] := by simp [ArchAbi.render]

theorem ExtraTest.render_ne_nil (t : ExtraTest) : t.render ≠ [] := by
  rw [ExtraTest.render]
  split
  · exact t.archAbi.render_ne_nil
  · simp

/-! One board. -/

/-- The board of an arch-abi with flags. -/
def board (cmodel : Str) (p : ArchAbi) (flags : List Flag) : Str :=
  join ['/'] (["riscv-sim".toList, "-march=".toList ++ p.arch, "-mabi=".toList ++ p.abi,
    "-mcmodel=".toList ++ cmodel] ++ flags.map Flag.text)

theorem generateOneTargetBoard_eq (options : BoardOptions) (p : ArchAbi) (flags : List Flag)
    (hsim : options.simName = "riscv-sim".toList) :
    generateOneTargetBoard p.render (renderFlags flags) options =
      some (board options.cmodel p flags) := by
  have hsplit : split '-' p.render = [p.arch, p.abi] := by
    rw [ArchAbi.render, split_append (p.arch_valid '-' (by decide)),
      split_of_not_mem (p.abi_valid '-' (by decide))]
  rw [generateOneTargetBoard, hsplit]
  simp only [hsim]
  cases flags with
  | nil => 
    rw [if_pos (by rfl)]
    simp [board]
  | cons f flags =>
    have hne : (renderFlags (f :: flags)).length ≠ 0 := by
      rw [Ne, List.length_eq_zero_iff]
      apply join_ne_nil (by simp)
      intro w hw
      obtain ⟨g, -, rfl⟩ := List.mem_map.mp hw
      exact g.ne_nil
    rw [if_neg hne, renderFlags, replace_join ':' '/' (by
      intro w hw
      obtain ⟨g, -, rfl⟩ := List.mem_map.mp hw
      exact g.valid ':' (by decide))]
    simp [board]

/-- What `filter_result` takes from the flags of a board. -/
theorem foldl_decodeInfo_flags (flags : List Flag) (v : Variation) :
    (flags.map Flag.text).foldl decodeInfo v =
      { v with otherArgs := v.otherArgs ++ flags.map Flag.text } := by
  induction flags generalizing v with
  | nil => simp
  | cons f flags ih =>
    obtain ⟨h₁, h₂, h₃, h₄⟩ := f.other
    rw [← startsWith_iff] at h₁ h₂ h₃
    have hstep : decodeInfo v f.text = { v with otherArgs := v.otherArgs ++ [f.text] } := by
      rw [decodeInfo, if_neg h₁, if_neg h₂, if_neg h₃, if_pos h₄]
    rw [List.map_cons, List.foldl_cons, hstep, ih]
    simp

theorem decode_board {cmodel : Str} (hcm : '/' ∉ cmodel) (p : ArchAbi) (flags : List Flag) :
    (decodeVariation (board cmodel p flags)).config = p.config cmodel flags := by
  have harch : '/' ∉ "-march=".toList ++ p.arch := by simp [p.arch_valid '/' (by decide)]
  have habi : '/' ∉ "-mabi=".toList ++ p.abi := by simp [p.abi_valid '/' (by decide)]
  have hcm' : '/' ∉ "-mcmodel=".toList ++ cmodel := by simp [hcm]
  have hparts : ∀ w ∈ ["riscv-sim".toList, "-march=".toList ++ p.arch, "-mabi=".toList ++ p.abi,
      "-mcmodel=".toList ++ cmodel] ++ flags.map Flag.text, '/' ∉ w := by
    intro w hw
    rcases List.mem_append.mp hw with hw | hw
    · simp only [List.mem_cons, List.not_mem_nil, or_false] at hw
      rcases hw with rfl | rfl | rfl | rfl
      · decide
      · exact harch
      · exact habi
      · exact hcm'
    · obtain ⟨f, -, rfl⟩ := List.mem_map.mp hw
      exact f.valid '/' (by decide)
  rw [decodeVariation, board, split_join (by simp) hparts, List.foldl_append]
  have hhead : ["riscv-sim".toList, "-march=".toList ++ p.arch, "-mabi=".toList ++ p.abi,
      "-mcmodel=".toList ++ cmodel].foldl decodeInfo ⟨[], [], [], []⟩ =
      ⟨p.arch, p.abi, cmodel, []⟩ := rfl
  rw [hhead, foldl_decodeInfo_flags]
  rfl

theorem not_mem_board {cmodel : Str} (hcm : ' ' ∉ cmodel) (p : ArchAbi) (flags : List Flag) :
    ' ' ∉ board cmodel p flags := by
  apply not_mem_join (by decide)
  intro w hw
  rcases List.mem_append.mp hw with hw | hw
  · simp only [List.mem_cons, List.not_mem_nil, or_false] at hw
    rcases hw with rfl | rfl | rfl | rfl
    · decide
    · simp [p.arch_valid ' ' (by decide)]
    · simp [p.abi_valid ' ' (by decide)]
    · simp [hcm]
  · obtain ⟨f, -, rfl⟩ := List.mem_map.mp hw
    exact f.valid ' ' (by decide)

/-! The whole list. -/

theorem mapM_some {α β : Type} {f : α → Option β} {g : α → β} : ∀ {l : List α},
    (∀ a ∈ l, f a = some (g a)) → l.mapM f = some (l.map g)
  | [], _ => rfl
  | a :: l, h => by
    rw [List.mapM_cons, h a (by simp), mapM_some (fun x hx => h x (by simp [hx]))]
    rfl

theorem extraTestBoards_eq (options : BoardOptions) (hsim : options.simName = "riscv-sim".toList)
    (t : ExtraTest) : extraTestBoards options t.render =
      some (t.boards.map fun flags => board options.cmodel t.archAbi flags) := by
  have hcolon := t.archAbi.not_mem_render (c := ':') (by decide) (by decide)
  by_cases halt : t.alternatives = []
  · rw [ExtraTest.render, if_pos halt, ExtraTest.boards, if_pos halt, extraTestBoards,
      find_of_not_mem hcolon]
    have hone := generateOneTargetBoard_eq options t.archAbi [] hsim
    simp only [renderFlags, List.map_nil, join_nil] at hone
    simp [hone]
  · have hcomma : ∀ w ∈ t.alternatives.map renderFlags, ',' ∉ w := by
      intro w hw
      obtain ⟨flags, -, rfl⟩ := List.mem_map.mp hw
      exact Flag.not_mem_renderFlags (by decide) (by decide)
    rw [ExtraTest.render, if_neg halt, ExtraTest.boards, if_neg halt, extraTestBoards,
      find_append hcolon]
    simp only [List.take_left]
    rw [← List.drop_drop, List.drop_left]
    simp only [List.drop_succ_cons, List.drop_zero]
    rw [split_join (by simpa using halt) hcomma, List.mapM_map]
    exact mapM_some (fun flags _ => generateOneTargetBoard_eq options t.archAbi flags hsim)

section Request
variable (cmodel : Str) (pairs : List ArchAbi) (tests : List ExtraTest)

theorem archAbiList_request (hne : pairs ≠ []) :
    archAbiList (requestOptions cmodel pairs tests) = pairs.map ArchAbi.render := by
  have hsplit : split ' ' (requestOptions cmodel pairs tests).buildArchAbi =
      pairs.map ArchAbi.render := by
    apply split_join (by simpa using hne)
    intro w hw
    obtain ⟨p, -, rfl⟩ := List.mem_map.mp hw
    exact p.not_mem_render (by decide) (by decide)
  rw [archAbiList]
  split
  · exact hsplit
  · rename_i h
    rw [split_of_not_mem h] at hsplit
    exact hsplit

theorem extraBoards_request : extraBoards (requestOptions cmodel pairs tests) =
    some (tests.map fun t => t.boards.map fun flags => board cmodel t.archAbi flags) := by
  cases tests with
  | nil => rfl
  | cons t tests =>
    let options := requestOptions cmodel pairs (t :: tests)
    have hnonempty : options.extraTestArchAbiFlagsList ≠ [] := by
      apply join_ne_nil (by simp)
      intro w hw
      obtain ⟨u, -, rfl⟩ := List.mem_map.mp hw
      exact u.render_ne_nil
    have hsplit : split ';' options.extraTestArchAbiFlagsList =
        (t :: tests).map ExtraTest.render := by
      apply split_join (by simp)
      intro w hw
      obtain ⟨u, -, rfl⟩ := List.mem_map.mp hw
      exact u.not_mem_render
    rw [extraBoards, if_neg hnonempty, hsplit, List.mapM_map]
    exact mapM_some (fun u _ => extraTestBoards_eq options rfl u)

theorem generateTargetBoards_eq (hne : pairs ≠ []) :
    generateTargetBoards (requestOptions cmodel pairs tests) =
      some (join [' '] (pairs.map (fun p => board cmodel p []) ++
        tests.flatMap fun t => t.boards.map fun flags => board cmodel t.archAbi flags)) := by
  let options := requestOptions cmodel pairs tests
  have hbuild : options.buildArchAbi ≠ [] := by
    apply join_ne_nil (by simpa using hne)
    intro w hw
    obtain ⟨p, -, rfl⟩ := List.mem_map.mp hw
    exact p.render_ne_nil
  have hsim : options.simName ≠ [] := by
    show "riscv-sim".toList ≠ []
    decide
  have hboards : (archAbiList options).mapM
      (fun oneArchAbi => generateOneTargetBoard oneArchAbi [] options) =
      some (pairs.map fun p => board cmodel p []) := by
    rw [archAbiList_request cmodel pairs tests hne, List.mapM_map]
    exact mapM_some (fun p _ => generateOneTargetBoard_eq options p [] rfl)
  show generateTargetBoards options = _
  rw [generateTargetBoards, if_neg (not_or.mpr ⟨hsim, hbuild⟩), hboards,
    extraBoards_request cmodel pairs tests]
  rfl

end Request

/-- The boards of the printed list are decoded to the requested configurations, one board for
    each and in order. -/
theorem decode_generateTargetBoards (cmodel : Str) (hslash : '/' ∉ cmodel) (hspace : ' ' ∉ cmodel)
    (pairs : List ArchAbi) (hne : pairs ≠ []) (tests : List ExtraTest) :
    ∃ printed, generateTargetBoards (requestOptions cmodel pairs tests) = some printed ∧
      (split ' ' printed).map (fun b => (decodeVariation b).config) =
        requested cmodel pairs tests := by
  refine ⟨_, generateTargetBoards_eq cmodel pairs tests hne, ?_⟩
  have hspaces : ∀ w ∈ pairs.map (fun p => board cmodel p []) ++
      tests.flatMap (fun t => t.boards.map fun flags => board cmodel t.archAbi flags), ' ' ∉ w := by
    intro w hw
    rcases List.mem_append.mp hw with hw | hw
    · obtain ⟨p, -, rfl⟩ := List.mem_map.mp hw
      exact not_mem_board hspace p []
    · obtain ⟨t, -, hw⟩ := List.mem_flatMap.mp hw
      obtain ⟨flags, -, rfl⟩ := List.mem_map.mp hw
      exact not_mem_board hspace t.archAbi flags
  rw [split_join (by simp [hne]) hspaces, List.map_append, List.map_map, List.map_flatMap, requested]
  congr 1
  · exact List.map_congr_left (fun p _ => decode_board hslash p [])
  · congr 1
    funext t
    rw [List.map_map]
    exact List.map_congr_left (fun flags _ => decode_board hslash t.archAbi flags)

def rv64gcLp64d : ArchAbi where
  arch := "rv64gc".toList
  abi := "lp64d".toList
  arch_valid := by simp [boardSeparators]
  abi_valid := by simp [boardSeparators]

/-- `--param=riscv-autovec-lmul=m1`. -/
def lmulFlag : Flag where
  text := "--param=riscv-autovec-lmul=m1".toList
  ne_nil := by decide
  valid := by simp
  other := by decide

/-- One pair, and an extra test with two alternatives: three boards. -/
theorem decode_boards_lmul :
    ∃ printed, generateTargetBoards (requestOptions "medlow".toList [rv64gcLp64d]
        [⟨rv64gcLp64d, [[lmulFlag], [lmulFlag, lmulFlag]]⟩]) = some printed ∧
      (split ' ' printed).map (fun b => (decodeVariation b).config) =
        requested "medlow".toList [rv64gcLp64d]
          [⟨rv64gcLp64d, [[lmulFlag], [lmulFlag, lmulFlag]]⟩] ∧
      (split ' ' printed).length = 3 := by
  obtain ⟨printed, hprint, hdecode⟩ := decode_generateTargetBoards "medlow".toList (by decide)
    (by decide) [rv64gcLp64d] (by simp) [⟨rv64gcLp64d, [[lmulFlag], [lmulFlag, lmulFlag]]⟩]
  refine ⟨printed, hprint, hdecode, ?_⟩
  have hlen := congrArg List.length hdecode
  rw [List.length_map] at hlen
  exact hlen

/-- A code model with a `/` in its name is cut there. -/
theorem not_decode_cmodel_slash : ¬ ∀ (cmodel : Str) (pairs : List ArchAbi), pairs ≠ [] →
    ∀ tests : List ExtraTest,
    ∃ printed, generateTargetBoards (requestOptions cmodel pairs tests) = some printed ∧
      (split ' ' printed).map (fun b => (decodeVariation b).config) =
        requested cmodel pairs tests := by
  intro h
  obtain ⟨printed, hprint, hdecode⟩ := h "a/b".toList [rv64gcLp64d] (by simp) []
  have hrun : generateTargetBoards (requestOptions "a/b".toList [rv64gcLp64d] []) =
      some "riscv-sim/-march=rv64gc/-mabi=lp64d/-mcmodel=a/b".toList := rfl
  rw [hrun] at hprint
  cases hprint
  exact absurd hdecode (by decide)

end Testsuite
