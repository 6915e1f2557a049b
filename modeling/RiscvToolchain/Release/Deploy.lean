import RiscvToolchain.Release.BundleCheck
import RiscvToolchain.Semantics.Shell

/- `build/deploy-beget-release.sh`: a bundle is checked, copied to the publisher's
   host and published. Any command may fail or be the one at which the script is
   killed; one that talks to the host may have arrived there all the same, and a copy
   that fails has sent any part of any of the files (`Fates`). Nothing else changes the
   bundle while the script runs. Regular expressions are those of the C.UTF-8 locale,
   where a range is a range of code points.

   Correspondence (bash ↔ Lean):
     the environment; unset is empty      ↔ `Environment`
     `require_env`, its loop              ↔ `requireEnv`
     the tests of the values              ↔ `isHost`, `isUser`, `isPort`, `isPositive`;
                                            a `Target` has passed them
     the bundle check                     ↔ `bundleCheck`
     from `mktemp -d` to the end          ↔ `deploy`; the trap is `Shell.onExit`
     the script                           ↔ `deployMain`
   What the host sees is a list of requests: a command line for its shell, or a file
   written by `scp`. -/
namespace Release
open Python Posix Semantics Shell

structure Environment where
  BEGET_HOST : Str
  BEGET_PORT : Str
  BEGET_USER : Str
  BEGET_SSH_PRIVATE_KEY : Str
  BEGET_KNOWN_HOSTS : Str
  GITHUB_REPOSITORY : Str
  GITHUB_RUN_ID : Str
  GITHUB_RUN_ATTEMPT : Str
  RUNNER_TEMP : Str

/-! The tests of the values. -/

def isAlnum (c : Char) : Bool := c.isUpper || c.isLower || c.isDigit

/-- `^[A-Za-z0-9][A-Za-z0-9.-]{0,252}$` and `!= *..*`. -/
def isHost : Str → Bool
  | [] => false
  | c :: s =>
    isAlnum c && s.all (fun d => isAlnum d || d == '.' || d == '-') && decide (s.length ≤ 252) &&
      (findStr "..".toList (c :: s)).isNone

/-- `^[a-z_][a-z0-9_-]{0,31}$`. -/
def isUser : Str → Bool
  | [] => false
  | c :: s =>
    (c.isLower || c == '_') &&
      s.all (fun d => d.isLower || d.isDigit || d == '_' || d == '-') && decide (s.length ≤ 31)

/-- `[1-9]`. -/
def isNonzeroDigit (c : Char) : Bool := c.isDigit && c != '0'

/-- `^[1-9][0-9]*$`. -/
def isPositive : Str → Bool
  | [] => false
  | c :: s => isNonzeroDigit c && s.all Char.isDigit

/-- `^[1-9][0-9]{0,4}$` and `-le 65535`. -/
def isPort (s : Str) : Bool :=
  isPositive s && decide (s.length ≤ 5) && (int s).any (· ≤ 65535)

/-- Where and under which name a bundle is deployed. -/
structure Target where
  host : Str
  user : Str
  port : Str
  runId : Str
  runAttempt : Str
  hostOk : isHost host = true
  userOk : isUser user = true
  portOk : isPort port = true
  runOk : isPositive runId = true ∧ isPositive runAttempt = true

/-- `upload_id`. -/
def Target.uploadId (t : Target) : Str := t.runId ++ ['-'] ++ t.runAttempt

/-- `target`. -/
def Target.address (t : Target) : Str := t.user ++ ['@'] ++ t.host

def Environment.required (env : Environment) : List (Str × Str) :=
  [("BEGET_HOST".toList, env.BEGET_HOST), ("BEGET_PORT".toList, env.BEGET_PORT),
   ("BEGET_USER".toList, env.BEGET_USER),
   ("BEGET_SSH_PRIVATE_KEY".toList, env.BEGET_SSH_PRIVATE_KEY),
   ("BEGET_KNOWN_HOSTS".toList, env.BEGET_KNOWN_HOSTS),
   ("GITHUB_REPOSITORY".toList, env.GITHUB_REPOSITORY),
   ("GITHUB_RUN_ID".toList, env.GITHUB_RUN_ID),
   ("GITHUB_RUN_ATTEMPT".toList, env.GITHUB_RUN_ATTEMPT),
   ("RUNNER_TEMP".toList, env.RUNNER_TEMP)]

def requireEnv : List (Str × Str) → Except Str Unit
  | [] => .ok ()
  | (name, value) :: rest =>
    if value = [] then .error ("missing required environment variable: ".toList ++ name)
    else requireEnv rest

/-- The tests from the host's name to the run's numbers. -/
def checkValues (env : Environment) : Except Str Target :=
  if hhost : isHost env.BEGET_HOST = true then
    if huser : isUser env.BEGET_USER = true then
      if hport : isPort env.BEGET_PORT = true then
        if env.GITHUB_REPOSITORY = REPOSITORY then
          if hrun : isPositive env.GITHUB_RUN_ID = true ∧ isPositive env.GITHUB_RUN_ATTEMPT = true then
            .ok ⟨env.BEGET_HOST, env.BEGET_USER, env.BEGET_PORT, env.GITHUB_RUN_ID,
              env.GITHUB_RUN_ATTEMPT, hhost, huser, hport, hrun⟩
          else .error "unsafe GitHub run values".toList
        else .error "unauthorized GITHUB_REPOSITORY".toList
      else .error "unsafe BEGET_PORT".toList
    else .error "unsafe BEGET_USER".toList
  else .error "unsafe BEGET_HOST".toList

/-! The state, and what the world decides. -/

/-- What the host sees. -/
inductive Request where
  /-- `ssh -p port … address command`. -/
  | exec (port address command : Str)
  /-- A file that `scp -P port` writes. -/
  | copy (port destination : Str) (bytes : Bytes)
  deriving DecidableEq

structure Secret where
  text : Str
  mode : Nat
  deriving DecidableEq

/-- `$SSH_DIR`. -/
structure SshDir where
  mode : Nat
  deployKey : Option Secret
  knownHosts : Option Secret
  deriving DecidableEq

structure Desk where
  sshDir : Option SshDir
  server : List Request
  stderr : List Str
  deriving DecidableEq

/-- The commands of the script. -/
inductive Cmd where
  | realpath | mktemp | chmodDir | writeKey | writeHosts | chmodFiles | prepare | upload | publish
  | cleanup
  deriving DecidableEq, Repr

structure Fates where
  event : Cmd → Event
  /-- A `mktemp` that does not complete has made its directory. -/
  madeDir : Bool
  /-- How much of a text that is not written whole is written. -/
  written : Nat
  /-- The command line of an `ssh` that does not complete has arrived. -/
  arrived : Cmd → Bool
  /-- What an `scp` that does not complete has sent of a file: nothing, or its first bytes. -/
  sent : Str → Option Nat
  /-- What a removal that does not complete leaves. -/
  remains : SshDir → Option SshDir
  /-- It adds nothing to the directory. -/
  remains_le : ∀ d d', remains d = some d' →
    d'.mode = d.mode ∧ (d'.deployKey = none ∨ d'.deployKey = d.deployKey) ∧
      (d'.knownHosts = none ∨ d'.knownHosts = d.knownHosts)

section Script
variable (fates : Fates)

def warn (line : Str) : Script Desk Unit := fun s => (.ok (), { s with stderr := s.stderr ++ [line] })

/-- Under `umask 077` a new file is its owner's. -/
def newFileMode : Nat := 0o600

def onSshDir (f : SshDir → SshDir) (s : Desk) : Desk := { s with sshDir := s.sshDir.map f }

def send (requests : List Request) (s : Desk) : Desk := { s with server := s.server ++ requests }

/-- `"$SSH_BIN" "${SSH_ARGS[@]}" "$target" "$command"`. -/
def ssh (cmd : Cmd) (t : Target) (line : Str) : Script Desk Unit :=
  let request := Request.exec t.port t.address line
  command (fates.event cmd) (fun s => some (send [request] s))
    (fun s => if fates.arrived cmd then send [request] s else s)

def prepareLine (t : Target) : Str := "aspect-publisher prepare ".toList ++ t.uploadId

def publishLine (t : Target) : Str := "aspect-publisher publish ".toList ++ t.uploadId

/-- `"$target:aspect-upload/$upload_id/"`. -/
def uploadDir (t : Target) : Str := t.address ++ ":aspect-upload/".toList ++ t.uploadId ++ ['/']

/-- The bytes of a file of the bundle. -/
def fileBytes (fs : FS) (dir : Path) (file : Str) : Bytes :=
  match (pathOf dir file).bind fs.get with
  | some (.file bytes) => bytes
  | _ => []

/-- `expected_sorted`. -/
def expectedSorted (c : Collation) : List Str := lines (sort c (unlines expectedFiles))

/-- The files of the bundle with their bytes, as `upload_paths` lists them. -/
def bundleFiles (c : Collation) (fs : FS) (dir : Path) : List (Str × Bytes) :=
  (expectedSorted c).map fun file => (file, fileBytes fs dir file)

def copyOf (t : Target) (file : Str) (bytes : Bytes) : Request :=
  .copy t.port (uploadDir t ++ file) bytes

def wholeCopies (t : Target) (files : List (Str × Bytes)) : List Request :=
  files.map fun f => copyOf t f.1 f.2

def partialCopies (sent : Str → Option Nat) (t : Target) (files : List (Str × Bytes)) :
    List Request :=
  files.filterMap fun f => (sent f.1).map fun n => copyOf t f.1 (f.2.take n)

/-- `"$SCP_BIN" "${SCP_ARGS[@]}" "${upload_paths[@]}" "$target:aspect-upload/$upload_id/"`. -/
def scp (t : Target) (files : List (Str × Bytes)) : Script Desk Unit :=
  command (fates.event .upload) (fun s => some (send (wholeCopies t files) s))
    (send (partialCopies fates.sent t files))

/-- `printf '%s\n' "$text" >"$file"`. -/
def writeSecret (cmd : Cmd) (text : Str) (put : Secret → SshDir → SshDir) : Script Desk Unit :=
  let line := text ++ ['\n']
  command (fates.event cmd) (fun s => some (onSshDir (put ⟨line, newFileMode⟩) s))
    (onSshDir (put ⟨line.take fates.written, newFileMode⟩))

/-- `rm -rf -- "$SSH_DIR"`. -/
def removeSshDir : Script Desk Unit :=
  command (fates.event .cleanup) (fun s => some { s with sshDir := none })
    (fun s => { s with sshDir := s.sshDir.bind fates.remains })

/-- The part of the script that the trap guards. -/
def publishBundle (env : Environment) (t : Target) (files : List (Str × Bytes)) :
    Script Desk Unit := do
  writeSecret fates .writeKey env.BEGET_SSH_PRIVATE_KEY fun f d => { d with deployKey := some f }
  writeSecret fates .writeHosts env.BEGET_KNOWN_HOSTS fun f d => { d with knownHosts := some f }
  -- chmod 600 "$SSH_DIR/deploy_key" "$SSH_DIR/known_hosts"
  command (fates.event .chmodFiles)
    (fun s => some (onSshDir (fun d => { d with
      deployKey := d.deployKey.map ({ · with mode := 0o600 })
      knownHosts := d.knownHosts.map ({ · with mode := 0o600 }) }) s)) id
  ssh fates .prepare t (prepareLine t)
  scp fates t files
  ssh fates .publish t (publishLine t)

def deploy (env : Environment) (t : Target) (files : List (Str × Bytes)) : Script Desk Unit := do
  let emptyDir : Desk → Desk := fun s => { s with sshDir := some ⟨0o700, none, none⟩ }
  command (fates.event .mktemp) (fun s => some (emptyDir s))
    (fun s => if fates.madeDir then emptyDir s else s)
  command (fates.event .chmodDir) (fun s => some (onSshDir ({ · with mode := 0o700 }) s)) id
  onExit (removeSshDir fates) (publishBundle fates env t files)

/-- A message and `exit 1`. -/
def reject (message : Str) : Script Desk Unit := do
  warn message
  exit 1

/-- `[[ $# == 1 && -d $1 ]]`: the directory. -/
def bundleDirectory (resolver : Resolver) (fs : FS) : List Str → Option Path
  | [s] =>
    match resolver.resolve fs s with
    | .ok dir => if fs.get dir = some .dir then some dir else none
    | .error _ => none
  | _ => none

def deployMain (c : Collation) (resolver : Resolver) (fs : FS) (script : Str) (env : Environment)
    (args : List Str) : Script Desk Unit :=
  match requireEnv env.required with
  | .error message => reject message
  | .ok _ =>
    match bundleDirectory resolver fs args with
    | none => reject ("usage: ".toList ++ script ++ " BUNDLE_DIRECTORY".toList)
    | some dir => do
      command (fates.event .realpath) some id
      match checkValues env with
      | .error message => reject message
      | .ok t =>
        match bundleCheck c fs dir with
        | .error message => reject message
        | .ok _ => deploy fates env t (bundleFiles c fs dir)

end Script

/-! What a run does. -/

/-- The whole sequence of requests. -/
def protocol (t : Target) (files : List (Str × Bytes)) : List Request :=
  .exec t.port t.address (prepareLine t) :: wholeCopies t files ++
    [.exec t.port t.address (publishLine t)]

/-- What the host has seen when a run ends, wherever it ends. -/
inductive Seen (t : Target) (files : List (Str × Bytes)) : List Request → Prop where
  | nothing : Seen t files []
  | prepared : Seen t files [.exec t.port t.address (prepareLine t)]
  | uploading (sent : Str → Option Nat) :
      Seen t files (.exec t.port t.address (prepareLine t) :: partialCopies sent t files)
  | uploaded : Seen t files (.exec t.port t.address (prepareLine t) :: wholeCopies t files)
  | published : Seen t files (protocol t files)

/-- The directory and its files are closed to others. -/
structure SshDir.Private (d : SshDir) : Prop where
  mode : d.mode = 0o700
  deployKey : ∀ f, d.deployKey = some f → f.mode = 0o600
  knownHosts : ∀ f, d.knownHosts = some f → f.mode = 0o600

def Closed (s : Desk) : Prop := ∀ d, s.sshDir = some d → d.Private

def NoSecret (s : Desk) : Prop := ∀ d, s.sshDir = some d → d.deployKey = none ∧ d.knownHosts = none

section Steps
variable (fates : Fates) (t : Target) (files : List (Str × Bytes))

/-- From here to the trap the host has seen these requests. -/
def At (requests : List Request) (s : Desk) : Prop := Closed s ∧ s.server = requests

/-- The end of the guarded part. -/
def Ended (s : Desk) : Prop := Closed s ∧ Seen t files s.server

variable {fates t files}

theorem closed_onSshDir {s : Desk} {f : SshDir → SshDir} (h : Closed s)
    (hf : ∀ d, d.Private → (f d).Private) : Closed (onSshDir f s) := by
  intro d hd
  obtain ⟨d', hd', rfl⟩ := Option.map_eq_some_iff.mp hd
  exact hf d' (h d' hd')

theorem writeSecret_triple {cmd : Cmd} {text : Str} {put : Secret → SshDir → SshDir}
    (hput : ∀ text d, d.Private → (put ⟨text, newFileMode⟩ d).Private) :
    Triple (At []) (writeSecret fates cmd text put) (fun _ => At []) (fun _ => Ended t files) := by
  have hkeep : ∀ text s, At [] s → At [] (onSshDir (put ⟨text, newFileMode⟩) s) :=
    fun text s h => ⟨closed_onSshDir h.1 (hput text), h.2⟩
  have hend : ∀ s, At [] s → Ended t files s := fun s h => ⟨h.1, h.2 ▸ .nothing⟩
  unfold writeSecret
  refine command_triple ?_ (fun _ s h _ => hend _ (hkeep _ s h)) (fun s h => hend _ (hkeep _ s h))
  intro s u h he
  cases he
  exact hkeep _ s h

theorem send_server (requests : List Request) (s : Desk) :
    (send requests s).server = s.server ++ requests := rfl

theorem closed_send {requests : List Request} {s : Desk} (h : Closed s) :
    Closed (send requests s) := h

/-- A request that arrives or does not. -/
theorem ssh_triple {cmd : Cmd} {line : Str} {before : List Request}
    (hbefore : Seen t files before)
    (hafter : Seen t files (before ++ [.exec t.port t.address line])) :
    Triple (At before) (ssh fates cmd t line)
      (fun _ => At (before ++ [.exec t.port t.address line])) (fun _ => Ended t files) := by
  have hstop : ∀ s, At before s →
      Ended t files (if fates.arrived cmd then send [.exec t.port t.address line] s else s) := by
    intro s h
    split
    · exact ⟨closed_send h.1, by rw [send_server, h.2]; exact hafter⟩
    · exact ⟨h.1, by rw [h.2]; exact hbefore⟩
  unfold ssh
  refine command_triple ?_ (fun _ s h _ => hstop s h) hstop
  intro s u h he
  cases he
  exact ⟨closed_send h.1, by rw [send_server, h.2]⟩

theorem scp_triple :
    Triple (At [.exec t.port t.address (prepareLine t)]) (scp fates t files)
      (fun _ => At (.exec t.port t.address (prepareLine t) :: wholeCopies t files))
      (fun _ => Ended t files) := by
  have hstop : ∀ s, At [.exec t.port t.address (prepareLine t)] s →
      Ended t files (send (partialCopies fates.sent t files) s) := by
    intro s h
    refine ⟨closed_send h.1, ?_⟩
    rw [send_server, h.2]
    exact .uploading fates.sent
  refine command_triple ?_ (fun _ s h _ => hstop s h) hstop
  intro s u h he
  cases he
  exact ⟨closed_send h.1, by rw [send_server, h.2]; rfl⟩

theorem publishBundle_triple (env : Environment) :
    Triple (At []) (publishBundle fates env t files) (fun _ => Ended t files)
      (fun _ => Ended t files) := by
  refine Triple.bind (writeSecret_triple fun text d h => ?_) fun _ => ?_
  · exact ⟨h.mode, fun f hf => by cases hf; rfl, h.knownHosts⟩
  refine Triple.bind (writeSecret_triple fun text d h => ?_) fun _ => ?_
  · exact ⟨h.mode, h.deployKey, fun f hf => by cases hf; rfl⟩
  refine Triple.bind (Q := fun _ => At []) ?_ fun _ => ?_
  · refine command_triple ?_ (fun _ s h _ => ⟨h.1, h.2 ▸ .nothing⟩) (fun s h => ⟨h.1, h.2 ▸ .nothing⟩)
    intro s u h he
    cases he
    refine ⟨closed_onSshDir h.1 fun d hd => ⟨hd.mode, ?_, ?_⟩, h.2⟩
    · intro f hf
      obtain ⟨f', -, rfl⟩ := Option.map_eq_some_iff.mp hf
      rfl
    · intro f hf
      obtain ⟨f', -, rfl⟩ := Option.map_eq_some_iff.mp hf
      rfl
  refine Triple.bind (ssh_triple .nothing .prepared) fun _ => ?_
  refine Triple.bind scp_triple fun _ => ?_
  refine Triple.conseq (ssh_triple .uploaded .published) (fun _ h => h) ?_ (fun _ _ h => h)
  intro _ s h
  exact ⟨h.1, by rw [h.2]; exact .published⟩

/-- How the script may end once the directory for the key may be there. -/
def DeployEnd (fates : Fates) (t : Target) (files : List (Str × Bytes)) (e : Exit) (s : Desk) :
    Prop :=
  Ended t files s ∧ (e ≠ .killed → fates.event .cleanup = .completes → NoSecret s)

theorem closed_of_none {s : Desk} (h : s.sshDir = none) : Closed s ∧ NoSecret s := by
  constructor
  · intro d hd
    rw [h] at hd
    cases hd
  · intro d hd
    rw [h] at hd
    cases hd

theorem removeSshDir_triple {e : Exit} :
    Triple (Ended t files) (removeSshDir fates)
      (fun _ s => (Ended t files s ∧ s.sshDir = none) ∧ DeployEnd fates t files e s)
      (DeployEnd fates t files) := by
  have hstop : ∀ s, Ended t files s →
      Ended t files { s with sshDir := s.sshDir.bind fates.remains } := by
    intro s h
    refine ⟨?_, h.2⟩
    intro d hd
    obtain ⟨d', hd', hrem⟩ := Option.bind_eq_some_iff.mp hd
    obtain ⟨hmode, hkey, hhosts⟩ := fates.remains_le d' d hrem
    have hp := h.1 d' hd'
    refine ⟨hmode.trans hp.mode, ?_, ?_⟩
    · intro f hf
      rcases hkey with hk | hk
      · rw [hk] at hf
        cases hf
      · exact hp.deployKey f (hk ▸ hf)
    · intro f hf
      rcases hhosts with hk | hk
      · rw [hk] at hf
        cases hf
      · exact hp.knownHosts f (hk ▸ hf)
  refine command_triple ?_ ?_ ?_
  · intro s u h he
    cases he
    have hnone := closed_of_none (s := { s with sshDir := none }) rfl
    have hend : Ended t files { s with sshDir := none } := ⟨hnone.1, h.2⟩
    exact ⟨⟨hend, rfl⟩, hend, fun _ _ => hnone.2⟩
  · intro n s h hnot
    refine ⟨hstop s h, fun _ hc => ?_⟩
    cases hnot hc
  · intro s h
    exact ⟨hstop s h, fun hk => absurd rfl hk⟩

theorem deploy_triple (env : Environment) :
    Triple (fun s => s.sshDir = none ∧ s.server = []) (deploy fates env t files)
      (fun _ s => Ended t files s ∧ s.sshDir = none) (DeployEnd fates t files) := by
  -- before the trap the directory has no key in it
  let Fresh : Desk → Prop := fun s =>
    (s.sshDir = none ∨ s.sshDir = some ⟨0o700, none, none⟩) ∧ s.server = []
  have hfresh : ∀ s, Fresh s → At [] s ∧ NoSecret s := by
    intro s h
    obtain ⟨hdir | hdir, hserver⟩ := h
    · exact ⟨⟨(closed_of_none hdir).1, hserver⟩, (closed_of_none hdir).2⟩
    · refine ⟨⟨?_, hserver⟩, ?_⟩
      · intro d hd
        rw [hdir] at hd
        cases hd
        exact ⟨rfl, nofun, nofun⟩
      · intro d hd
        rw [hdir] at hd
        cases hd
        exact ⟨rfl, rfl⟩
  have hend : ∀ e s, Fresh s → DeployEnd fates t files e s := by
    intro e s h
    obtain ⟨hat, hno⟩ := hfresh s h
    exact ⟨⟨hat.1, hat.2 ▸ .nothing⟩, fun _ _ => hno⟩
  refine Triple.bind (Q := fun _ => Fresh) ?_ fun _ => ?_
  · have hstop : ∀ s : Desk, s.sshDir = none ∧ s.server = [] → Fresh
        (if fates.madeDir then { s with sshDir := some ⟨0o700, none, none⟩ } else s) := by
      intro s h
      split
      · exact ⟨Or.inr rfl, h.2⟩
      · exact ⟨Or.inl h.1, h.2⟩
    refine command_triple ?_ (fun _ s h _ => hend _ _ (hstop s h)) (fun s h => hend _ _ (hstop s h))
    intro s u h he
    cases he
    exact ⟨Or.inr rfl, h.2⟩
  refine Triple.bind (Q := fun _ => Fresh) ?_ fun _ => ?_
  · refine command_triple ?_ (fun _ s h _ => hend _ _ h) (fun s h => hend _ _ h)
    intro s u h he
    cases he
    refine ⟨?_, h.2⟩
    rcases h.1 with hdir | hdir
    · exact Or.inl (by rw [onSshDir, hdir]; rfl)
    · exact Or.inr (by rw [onSshDir, hdir]; rfl)
  · have hbody : Triple Fresh (publishBundle fates env t files) (fun _ => Ended t files)
        (fun _ => Ended t files) :=
      Triple.conseq (publishBundle_triple env) (fun s h => (hfresh s h).1) (fun _ _ h => h)
        (fun _ _ h => h)
    refine onExit_triple hbody (fun s h => ⟨h, fun hk => absurd rfl hk⟩) ?_ fun n => ?_
    · exact Triple.conseq (removeSshDir_triple (e := .killed)) (fun _ h => h) (fun _ _ h => h.1)
        (fun _ _ h => h)
    · exact Triple.conseq (removeSshDir_triple (e := .status n)) (fun _ h => h) (fun _ _ h => h.2)
        (fun _ _ h => h)

/-- Everything is sent and nothing is left, where every command completes and only there. -/
theorem deploy_eq_ok (env : Environment) {s u : Desk} :
    deploy fates env t files s = (.ok (), u) ↔
      (∀ cmd, cmd ≠ .realpath → fates.event cmd = .completes) ∧
      u = { s with sshDir := none, server := s.server ++ protocol t files } := by
  simp only [deploy, publishBundle, writeSecret, ssh, scp, removeSshDir, command_bind_eq_ok,
    onExit_eq_ok, command_eq_ok, Option.some.injEq]
  constructor
  · intro h
    obtain ⟨h₁, h₂, v, ⟨h₃, h₄, h₅, h₆, h₇, h₈, rfl⟩, h₉, rfl⟩ := h
    refine ⟨?_, ?_⟩
    · intro cmd hcmd
      cases cmd with
      | realpath => exact absurd rfl hcmd
      | mktemp => exact h₁
      | chmodDir => exact h₂
      | writeKey => exact h₃
      | writeHosts => exact h₄
      | chmodFiles => exact h₅
      | prepare => exact h₆
      | upload => exact h₇
      | publish => exact h₈
      | cleanup => exact h₉
    · simp [send, onSshDir, protocol]
  · intro ⟨h, hu⟩
    refine ⟨h _ (by decide), h _ (by decide), _, ⟨h _ (by decide), h _ (by decide),
      h _ (by decide), h _ (by decide), h _ (by decide), h _ (by decide), rfl⟩, h _ (by decide), ?_⟩
    rw [hu]
    simp [send, onSshDir, protocol]

end Steps

/-! The whole script. -/

section Main
variable (fates : Fates) (c : Collation) (resolver : Resolver) (fs : FS) (script : Str)
  (env : Environment) (args : List Str)

/-- All the tests of the script pass. -/
structure Admitted (t : Target) (dir : Path) : Prop where
  required : ∀ v ∈ env.required, v.2 ≠ []
  directory : bundleDirectory resolver fs args = some dir
  values : checkValues env = .ok t
  bundle : ExactBundle fs dir

def runDeploy : Except Exit Unit × Desk :=
  deployMain fates c resolver fs script env args ⟨none, [], []⟩

theorem requireEnv_ok_iff : ∀ vars : List (Str × Str),
    requireEnv vars = .ok () ↔ ∀ v ∈ vars, v.2 ≠ []
  | [] => by simp [requireEnv]
  | (name, value) :: rest => by
    rw [requireEnv]
    by_cases hv : value = []
    · simp [hv]
    · rw [if_neg hv, requireEnv_ok_iff rest]
      simp [hv]

/-- A run either ends before the host and the key are touched, or has passed every test. -/
theorem runDeploy_cases :
    (∃ e, (runDeploy fates c resolver fs script env args).1 = .error e ∧
      (runDeploy fates c resolver fs script env args).2.server = [] ∧
      (runDeploy fates c resolver fs script env args).2.sshDir = none ∧
      ¬ ((∃ t dir, Admitted resolver fs env args t dir) ∧ fates.event .realpath = .completes)) ∨
    ∃ t dir, Admitted resolver fs env args t dir ∧ fates.event .realpath = .completes ∧
      runDeploy fates c resolver fs script env args =
        deploy fates env t (bundleFiles c fs dir) ⟨none, [], []⟩ := by
  unfold runDeploy deployMain
  cases hreq : requireEnv env.required with
  | error message =>
    refine Or.inl ⟨.status 1, rfl, rfl, rfl, ?_⟩
    intro h
    obtain ⟨⟨t, dir, h⟩, -⟩ := h
    rw [(requireEnv_ok_iff _).mpr h.required] at hreq
    cases hreq
  | ok u =>
    cases hdir : bundleDirectory resolver fs args with
    | none =>
      refine Or.inl ⟨.status 1, rfl, rfl, rfl, ?_⟩
      intro h
      obtain ⟨⟨t, dir, h⟩, -⟩ := h
      rw [h.directory] at hdir
      cases hdir
    | some dir =>
      dsimp only
      cases hev : fates.event .realpath with
      | fails n => exact Or.inl ⟨_, rfl, rfl, rfl, fun h => nomatch h.2⟩
      | killed => exact Or.inl ⟨_, rfl, rfl, rfl, fun h => nomatch h.2⟩
      | completes =>
        rw [Prog.bind_apply]
        dsimp only [command, id]
        cases hval : checkValues env with
        | error message =>
          refine Or.inl ⟨.status 1, rfl, rfl, rfl, ?_⟩
          intro h
          obtain ⟨⟨t, dir', h⟩, -⟩ := h
          rw [h.values] at hval
          cases hval
        | ok t =>
          cases hb : bundleCheck c fs dir with
          | error message =>
            refine Or.inl ⟨.status 1, rfl, rfl, rfl, ?_⟩
            intro h
            obtain ⟨⟨t', dir', h⟩, -⟩ := h
            rw [h.directory] at hdir
            cases hdir
            rw [(bundleCheck_iff_exact c fs dir).mpr h.bundle] at hb
            cases hb
          | ok _ =>
            exact Or.inr ⟨t, dir, ⟨(requireEnv_ok_iff _).mp hreq, hdir, hval,
              (bundleCheck_iff_exact c fs dir).mp hb⟩, rfl, rfl⟩

/-! What the host has seen when it is asked to publish. -/

theorem mem_expectedSorted (e : Str) : e ∈ expectedSorted c ↔ e ∈ expectedFiles := by
  rw [expectedSorted, lines_expected, List.mem_mergeSort]

theorem ExactBundle.fileBytes {fs : FS} {dir : Path} (h : ExactBundle fs dir) {e : Str}
    (he : e ∈ expectedFiles) :
    ∃ n : Name, n.text = e ∧ fs.get (n :: dir) = some (.file (fileBytes fs dir e)) := by
  obtain ⟨-, hfiles⟩ :=
    (bundleCheck_eq_ok_iff byteOrder fs dir).mp ((bundleCheck_iff_exact byteOrder fs dir).mpr h)
  obtain ⟨n, rfl, bytes, hbytes⟩ := hfiles e he
  refine ⟨n, rfl, ?_⟩
  rw [Release.fileBytes, pathOf_text, Option.bind_some, hbytes]

variable {fates c resolver fs env args}

theorem prepareLine_ne_publishLine (t : Target) : prepareLine t ≠ publishLine t := by
  intro h
  have hlen : "aspect-publisher prepare ".toList.length = "aspect-publisher publish ".toList.length := by
    decide
  exact absurd (List.append_inj h hlen).1 (by decide)

theorem mem_copies {t : Target} {files : List (Str × Bytes)} {requests : List Request}
    (h : requests = wholeCopies t files ∨ ∃ sent, requests = partialCopies sent t files) :
    ∀ r ∈ requests, ∃ port destination bytes, r = .copy port destination bytes := by
  intro r hr
  rcases h with rfl | ⟨sent, rfl⟩
  · obtain ⟨f, -, rfl⟩ := List.mem_map.mp hr
    exact ⟨_, _, _, rfl⟩
  · obtain ⟨f, -, hf⟩ := List.mem_filterMap.mp hr
    obtain ⟨n, -, rfl⟩ := Option.map_eq_some_iff.mp hf
    exact ⟨_, _, _, rfl⟩

/-- The last request comes after all the others. -/
theorem Seen.eq_protocol {t : Target} {files : List (Str × Bytes)} {requests : List Request}
    (h : Seen t files requests)
    (hmem : Request.exec t.port t.address (publishLine t) ∈ requests) :
    requests = protocol t files := by
  have hne : Request.exec t.port t.address (publishLine t) ≠
      .exec t.port t.address (prepareLine t) := by
    intro heq
    injection heq with _ _ hline
    exact prepareLine_ne_publishLine t hline.symm
  cases h with
  | nothing => cases hmem
  | prepared => exact absurd (List.mem_singleton.mp hmem) hne
  | uploading sent =>
    rcases List.mem_cons.mp hmem with heq | hmem
    · exact absurd heq hne
    · obtain ⟨_, _, _, heq⟩ := mem_copies (Or.inr ⟨sent, rfl⟩) _ hmem
      cases heq
  | uploaded =>
    rcases List.mem_cons.mp hmem with heq | hmem
    · exact absurd heq hne
    · obtain ⟨_, _, _, heq⟩ := mem_copies (Or.inl rfl) _ hmem
      cases heq
  | published => rfl

variable (fates c resolver fs env args)

/-- What holds of a run, however it ends. -/
structure SafeRun (r : Except Exit Unit × Desk) : Prop where
  sends : r.2.server = [] ∨ ∃ t dir, Admitted resolver fs env args t dir ∧
    Seen t (bundleFiles c fs dir) r.2.server
  /-- The host is asked to publish only behind every file of the checked bundle, whole. -/
  whole : ∀ t dir, Admitted resolver fs env args t dir →
    .exec t.port t.address (publishLine t) ∈ r.2.server →
    ∀ e ∈ expectedFiles, ∃ (n : Name) (bytes : Bytes), n.text = e ∧
      fs.get (n :: dir) = some (.file bytes) ∧ copyOf t e bytes ∈ r.2.server
  returns : r.1 = .ok () ↔
    (∃ t dir, Admitted resolver fs env args t dir) ∧ ∀ cmd, fates.event cmd = .completes
  published : r.1 = .ok () → r.2.sshDir = none ∧ ∃ t dir, Admitted resolver fs env args t dir ∧
    r.2.server = protocol t (bundleFiles c fs dir)
  closed : Closed r.2
  noSecret : r.1 ≠ .error .killed → fates.event .cleanup = .completes → NoSecret r.2

theorem Admitted.unique {resolver : Resolver} {fs : FS} {env : Environment} {args : List Str}
    {t t' : Target} {dir dir' : Path} (h : Admitted resolver fs env args t dir)
    (h' : Admitted resolver fs env args t' dir') : t = t' ∧ dir = dir' := by
  have ht := h.values
  rw [h'.values] at ht
  have hd := h.directory
  rw [h'.directory] at hd
  cases ht
  cases hd
  exact ⟨rfl, rfl⟩

theorem sends_whole {requests : List Request}
    (hsends : requests = [] ∨ ∃ t dir, Admitted resolver fs env args t dir ∧
      Seen t (bundleFiles c fs dir) requests) {t : Target} {dir : Path}
    (hadm : Admitted resolver fs env args t dir)
    (hmem : .exec t.port t.address (publishLine t) ∈ requests) {e : Str} (he : e ∈ expectedFiles) :
    ∃ (n : Name) (bytes : Bytes), n.text = e ∧ fs.get (n :: dir) = some (.file bytes) ∧
      copyOf t e bytes ∈ requests := by
  rcases hsends with rfl | ⟨t', dir', hadm', hseen⟩
  · cases hmem
  · obtain ⟨rfl, rfl⟩ := hadm.unique hadm'
    obtain ⟨n, hn, hbytes⟩ := hadm.bundle.fileBytes he
    refine ⟨n, _, hn, hbytes, ?_⟩
    have hfile : (e, fileBytes fs dir e) ∈ bundleFiles c fs dir :=
      List.mem_map_of_mem ((mem_expectedSorted c e).mpr he)
    rw [hseen.eq_protocol hmem, protocol]
    exact List.mem_append_left _ (List.mem_cons_of_mem _ (List.mem_map_of_mem hfile))

/-- What the host has seen when a run ends. -/
theorem runDeploy_sends :
    (runDeploy fates c resolver fs script env args).2.server = [] ∨
    ∃ t dir, Admitted resolver fs env args t dir ∧
      Seen t (bundleFiles c fs dir) (runDeploy fates c resolver fs script env args).2.server := by
  rcases runDeploy_cases fates c resolver fs script env args with
    ⟨e, -, hserver, -, -⟩ | ⟨t, dir, hadm, -, hrun⟩
  · exact Or.inl hserver
  · refine Or.inr ⟨t, dir, hadm, ?_⟩
    have htriple := (deploy_triple env : Triple _ (deploy fates env t (bundleFiles c fs dir)) _ _)
      ⟨none, [], []⟩ ⟨rfl, rfl⟩
    rw [← hrun] at htriple
    cases hr : runDeploy fates c resolver fs script env args with
    | mk r s =>
      rw [hr] at htriple
      cases r with
      | ok _ => exact htriple.1.2
      | error e => exact htriple.1.2

/-- When the script returns, and what it leaves of the key. -/
theorem runDeploy_ends :
    ((runDeploy fates c resolver fs script env args).1 = .ok () ↔
      (∃ t dir, Admitted resolver fs env args t dir) ∧ ∀ cmd, fates.event cmd = .completes) ∧
    ((runDeploy fates c resolver fs script env args).1 = .ok () →
      (runDeploy fates c resolver fs script env args).2.sshDir = none ∧
      ∃ t dir, Admitted resolver fs env args t dir ∧
        (runDeploy fates c resolver fs script env args).2.server =
          protocol t (bundleFiles c fs dir)) ∧
    Closed (runDeploy fates c resolver fs script env args).2 ∧
    ((runDeploy fates c resolver fs script env args).1 ≠ .error .killed →
      fates.event .cleanup = .completes →
      NoSecret (runDeploy fates c resolver fs script env args).2) := by
  rcases runDeploy_cases fates c resolver fs script env args with
    ⟨e, he, -, hdir, hno⟩ | ⟨t, dir, hadm, hreal, hrun⟩
  · have hnone := closed_of_none hdir
    refine ⟨?_, ?_, hnone.1, fun _ _ => hnone.2⟩
    · rw [he]
      exact iff_of_false nofun fun h => hno ⟨h.1, h.2 _⟩
    · intro h
      rw [he] at h
      cases h
  · have htriple := (deploy_triple env : Triple _ (deploy fates env t (bundleFiles c fs dir)) _ _)
      ⟨none, [], []⟩ ⟨rfl, rfl⟩
    rw [← hrun] at htriple
    have hok : ∀ u, runDeploy fates c resolver fs script env args = (.ok (), u) ↔
        (∀ cmd, cmd ≠ .realpath → fates.event cmd = .completes) ∧
        u = ⟨none, protocol t (bundleFiles c fs dir), []⟩ := by
      intro u
      rw [hrun, deploy_eq_ok, List.nil_append]
    have hreturns : (runDeploy fates c resolver fs script env args).1 = .ok () ↔
        (∃ t dir, Admitted resolver fs env args t dir) ∧ ∀ cmd, fates.event cmd = .completes := by
      constructor
      · intro h
        obtain ⟨hall, -⟩ := (hok _).mp (Prod.ext h rfl)
        refine ⟨⟨t, dir, hadm⟩, fun cmd => ?_⟩
        by_cases hcmd : cmd = .realpath
        · rw [hcmd, hreal]
        · exact hall cmd hcmd
      · intro h
        rw [(hok _).mpr ⟨fun cmd _ => h.2 cmd, rfl⟩]
    refine ⟨hreturns, ?_⟩
    cases hr : runDeploy fates c resolver fs script env args with
    | mk r s =>
      rw [hr] at htriple hok
      cases r with
      | ok _ =>
        obtain ⟨hended, hnone⟩ := htriple
        have hs := ((hok s).mp rfl).2
        exact ⟨fun _ => ⟨hnone, t, dir, hadm, by rw [hs]⟩, hended.1,
          fun _ _ => (closed_of_none hnone).2⟩
      | error e =>
        obtain ⟨hended, hno⟩ := htriple
        refine ⟨?_, hended.1, ?_⟩
        · intro h
          cases h
        · intro hne hclean
          refine hno ?_ hclean
          intro heq
          exact hne (congrArg Except.error heq)

/-- However a deployment ends: the host has seen an initial part of the protocol, and was asked to
    publish only behind the whole checked bundle; the script returns exactly where all tests pass
    and all commands complete; the key was its owner's alone, and it is gone unless the script
    was killed or the removal itself failed. -/
theorem runDeploy_safe : SafeRun fates c resolver fs env args
    (runDeploy fates c resolver fs script env args) := by
  have hsends := runDeploy_sends fates c resolver fs script env args
  obtain ⟨hreturns, hpublished, hclosed, hsecret⟩ :=
    runDeploy_ends fates c resolver fs script env args
  exact ⟨hsends, fun t dir h hmem e he => sends_whole c resolver fs env args hsends h hmem he,
    hreturns, hpublished, hclosed, hsecret⟩

end Main
end Release
