import RiscvToolchain.Python.Str
import RiscvToolchain.Posix.FileSystem

/- `build/fetch-source.sh`: a source archive from the first mirror that has it.

   Correspondence (bash ↔ Lean):
     `fetch_source_archive_ok`     ↔ `fetchSourceArchiveOk`, the case on the name
                                     `decompressor`; the pipeline runs under `pipefail`
     `fetch_source`                ↔ `fetchSource`, its loop `tryMirrors`
     `"$destination"`, its `.part` ↔ `World.destination`, `World.part`
   What the world decides is given: what each mirror answers (`Curl`), what the
   decompressors and `tar` say of some bytes (`Tools`), whether the rename succeeds,
   and whether a failing command ends the shell. That last one is off without
   `set -e` and off in the condition of an `if`, whatever `set -e` says. A rename
   within one directory either happens or changes nothing. -/
namespace Download
open Python Posix

inductive Compression where
  | gzip
  | xz
  | bzip2
  | cat
  deriving DecidableEq, Repr

/-- The programs of the pipeline; `none` is a failure. -/
structure Tools where
  decompress : Compression → Bytes → Option Bytes
  /-- The lines of `tar -tf -`. -/
  tarList : Bytes → Option (List Str)

inductive Curl where
  | fails (left : Option Bytes)
  | succeeds (bytes : Bytes)
  deriving DecidableEq, Repr

structure Mirror where
  url : Str
  curl : Curl
  deriving DecidableEq, Repr

structure World where
  destination : Option Bytes
  part : Option Bytes
  /-- The mirrors `curl` was started for. -/
  contacted : List Str
  stderr : List Str
  deriving DecidableEq, Repr

/-- What the caller's shell and the file system decide. -/
structure Setting where
  tools : Tools
  /-- A failing command ends the shell. -/
  errexit : Bool
  /-- `mv` fails with this status. -/
  mvFails : Option Nat

/-- How the call ends: it returns, or the shell exits. -/
inductive End where
  | returns (status : Nat)
  | exits (status : Nat)
  deriving DecidableEq, Repr

def endsWith (suffix s : Str) : Bool := suffix.isSuffixOf s

/-- The `case` on the name of the archive. -/
def decompressor (name : Str) : Option Compression :=
  if endsWith ".tar.gz".toList name || endsWith ".tgz".toList name then some .gzip
  else if endsWith ".tar.xz".toList name then some .xz
  else if endsWith ".tar.bz2".toList name then some .bzip2
  else if endsWith ".tar".toList name then some .cat
  else none

/-- `true` is status 0. A file that is not there fails the redirection, and with it the pipeline. -/
def fetchSourceArchiveOk (tools : Tools) (archive : Option Bytes) (name : Str) : Bool :=
  match decompressor name with
  | none => true
  | some c =>
    match archive.bind (tools.decompress c) >>= tools.tarList with
    | none => false
    | some entries => decide (0 < entries.length)

namespace World

def echo (w : World) (line : Str) : World := { w with stderr := w.stderr ++ [line] }

def rmPart (w : World) : World := { w with part := none }

/-- `curl … "$url" -o "$partial"`, with `.part` absent. -/
def download (w : World) (m : Mirror) : World :=
  { w with
    contacted := w.contacted ++ [m.url]
    part := match m.curl with
      | .fails left => left
      | .succeeds bytes => some bytes }

def attempt (w : World) (m : Mirror) : World := (w.echo ("download: ".toList ++ m.url)).download m

/-- `rm -f "$partial"` and the message behind it. -/
def giveUp (w : World) (m : Mirror) : World := w.rmPart.echo ("mirror failed: ".toList ++ m.url)

end World

/-- `mv -f "$partial" "$destination"`, then `return 0`. -/
def mvReturn (e : Setting) (w : World) : End × World :=
  match e.mvFails with
  | none => (.returns 0, { w with destination := w.part, part := none })
  | some status => (if e.errexit then .exits status else .returns 0, w)

section Fetch
variable (e : Setting) (destination : Str)

def tryMirrors : List Mirror → World → End × World
  | [], w =>
    (.returns 1,
      w.echo ("unable to download ".toList ++ destination ++ " from any mirror".toList))
  | m :: rest, w =>
    let w := w.attempt m
    match m.curl with
    | .fails _ => tryMirrors rest (w.giveUp m)
    | .succeeds _ =>
      if fetchSourceArchiveOk e.tools w.part destination then mvReturn e w
      else tryMirrors rest ((w.echo ("not a valid archive: ".toList ++ m.url)).giveUp m)

def fetchSource (mirrors : List Mirror) (w : World) : End × World :=
  if mirrors.isEmpty then
    (.returns 2, w.echo ("fetch_source: no mirrors provided for ".toList ++ destination))
  else tryMirrors e destination mirrors w.rmPart

/-! What a call is for. -/

/-- The mirror's bytes, if the download succeeds and they pass the archive check. -/
def Mirror.passing (m : Mirror) : Option Bytes :=
  match m.curl with
  | .fails _ => none
  | .succeeds bytes =>
    if fetchSourceArchiveOk e.tools (some bytes) destination then some bytes else none

/-- The bytes of the first mirror, in order, that passes. -/
def firstPassing (mirrors : List Mirror) : Option Bytes :=
  mirrors.findSome? (Mirror.passing e destination)

/-- The mirrors up to the first one that passes, and it. -/
def upToFirst : List Mirror → List Mirror
  | [] => []
  | m :: rest => m :: if (m.passing e destination).isSome then [] else upToFirst rest

structure Atomic (mirrors : List Mirror) (w : World) : Prop where
  success : ∀ w', fetchSource e destination mirrors w = (.returns 0, w') →
    ∃ bytes, firstPassing e destination mirrors = some bytes ∧ w'.destination = some bytes
  failure : firstPassing e destination mirrors = none →
    ∃ status w', fetchSource e destination mirrors w = (.returns status, w') ∧ status ≠ 0 ∧
      w'.destination = w.destination
  contacts : (fetchSource e destination mirrors w).2.contacted =
    w.contacted ++ (upToFirst e destination mirrors).map Mirror.url
  noPart : e.mvFails = none → ∀ status w',
    fetchSource e destination mirrors w = (.returns status, w') → w'.part = none

variable {e destination}

/-! One mirror, then the loop. -/

/-- A mirror that does not pass leaves nothing but the record of it. -/
theorem tryMirrors_skip {m : Mirror} (h : m.passing e destination = none) (rest : List Mirror)
    (w : World) : ∃ u : World, u.destination = w.destination ∧ u.part = none ∧
      u.contacted = w.contacted ++ [m.url] ∧
      tryMirrors e destination (m :: rest) w = tryMirrors e destination rest u := by
  obtain ⟨url, curl⟩ := m
  cases curl with
  | fails left => exact ⟨(w.attempt ⟨url, .fails left⟩).giveUp ⟨url, .fails left⟩, rfl, rfl, rfl, rfl⟩
  | succeeds bytes =>
    have hok : fetchSourceArchiveOk e.tools (some bytes) destination = false := by
      simpa [Mirror.passing] using h
    refine ⟨((w.attempt ⟨url, .succeeds bytes⟩).echo
      ("not a valid archive: ".toList ++ url)).giveUp ⟨url, .succeeds bytes⟩, rfl, rfl, rfl, ?_⟩
    simp only [tryMirrors, World.attempt, World.download, hok]
    rfl

theorem tryMirrors_take {m : Mirror} {bytes : Bytes} (h : m.passing e destination = some bytes)
    (rest : List Mirror) (w : World) : ∃ u : World, u.destination = w.destination ∧
      u.part = some bytes ∧ u.contacted = w.contacted ++ [m.url] ∧
      tryMirrors e destination (m :: rest) w = mvReturn e u := by
  obtain ⟨url, curl⟩ := m
  cases curl with
  | fails left => cases h
  | succeeds b =>
    obtain ⟨hok, rfl⟩ : fetchSourceArchiveOk e.tools (some b) destination = true ∧ b = bytes := by
      simpa [Mirror.passing] using h
    refine ⟨w.attempt ⟨url, .succeeds b⟩, rfl, rfl, rfl, ?_⟩
    simp only [tryMirrors, World.attempt, World.download, hok]
    rfl

/-- By induction on the mirrors: no mirror passes, and the loop returns 1 as it found things. -/
theorem tryMirrors_none : ∀ (mirrors : List Mirror) (w : World),
    firstPassing e destination mirrors = none → w.part = none →
    ∃ w', tryMirrors e destination mirrors w = (.returns 1, w') ∧ w'.destination = w.destination ∧
      w'.part = none ∧
      w'.contacted = w.contacted ++ (upToFirst e destination mirrors).map Mirror.url
  | [], w, _, hpart => ⟨_, rfl, rfl, hpart, by simp [World.echo, upToFirst]⟩
  | m :: rest, w, h, _ => by
    obtain ⟨hm, hrest⟩ : m.passing e destination = none ∧ firstPassing e destination rest = none := by
      rw [firstPassing, List.findSome?_cons] at h
      cases hm : m.passing e destination with
      | none =>
        rw [hm] at h
        exact ⟨rfl, h⟩
      | some b =>
        rw [hm] at h
        cases h
    obtain ⟨u, hd, hp, hc, hrun⟩ := tryMirrors_skip hm rest w
    obtain ⟨w', hw', hd', hp', hc'⟩ := tryMirrors_none rest u hrest hp
    refine ⟨w', hrun.trans hw', hd'.trans hd, hp', ?_⟩
    rw [hc', hc, upToFirst, hm]
    simp

/-- By induction on the mirrors: the loop comes to the rename with the bytes of the first that
    passes in `.part`. -/
theorem tryMirrors_some {bytes : Bytes} : ∀ (mirrors : List Mirror) (w : World),
    firstPassing e destination mirrors = some bytes →
    ∃ u : World, u.destination = w.destination ∧ u.part = some bytes ∧
      u.contacted = w.contacted ++ (upToFirst e destination mirrors).map Mirror.url ∧
      tryMirrors e destination mirrors w = mvReturn e u
  | [], _, h => by cases h
  | m :: rest, w, h => by
    cases hm : m.passing e destination with
    | some b =>
      obtain rfl : b = bytes := by simpa [firstPassing, hm] using h
      obtain ⟨u, hd, hp, hc, hrun⟩ := tryMirrors_take hm rest w
      refine ⟨u, hd, hp, ?_, hrun⟩
      rw [hc, upToFirst, hm]
      simp
    | none =>
      have hrest : firstPassing e destination rest = some bytes := by
        simpa [firstPassing, hm] using h
      obtain ⟨u, hd, hp, hc, hrun⟩ := tryMirrors_skip hm rest w
      obtain ⟨u', hd', hp', hc', hrun'⟩ := tryMirrors_some rest u hrest
      refine ⟨u', hd'.trans hd, hp', ?_, hrun.trans hrun'⟩
      rw [hc', hc, upToFirst, hm]
      simp

/-! The call. -/

theorem fetchSource_eq {mirrors : List Mirror} (hne : mirrors ≠ []) (w : World) :
    fetchSource e destination mirrors w = tryMirrors e destination mirrors w.rmPart := by
  rw [fetchSource, if_neg (by simpa using hne)]

theorem atomic_of_none {mirrors : List Mirror} {w : World} (hne : mirrors ≠ [])
    (h : firstPassing e destination mirrors = none) : Atomic e destination mirrors w := by
  obtain ⟨w', hrun, hd, hp, hc⟩ := tryMirrors_none mirrors w.rmPart h rfl
  rw [← fetchSource_eq hne] at hrun
  constructor
  · intro w'' h0
    rw [hrun] at h0
    cases h0
  · intro _
    exact ⟨1, w', hrun, by decide, hd⟩
  · rw [hrun]
    exact hc
  · intro _ status w'' h0
    rw [hrun] at h0
    cases h0
    exact hp

/-- Where a mirror passes, all but one part of the claim holds whatever the rename does. -/
theorem atomic_iff_of_some {mirrors : List Mirror} {w : World} {bytes : Bytes} (hne : mirrors ≠ [])
    (h : firstPassing e destination mirrors = some bytes) :
    Atomic e destination mirrors w ↔
      e.errexit = true ∨ e.mvFails = none ∨ w.destination = some bytes := by
  obtain ⟨u, hd, hp, hc, hrun⟩ := tryMirrors_some mirrors w.rmPart h
  rw [← fetchSource_eq hne] at hrun
  constructor
  · intro hat
    cases hmv : e.mvFails with
    | none => exact Or.inr (Or.inl rfl)
    | some status =>
      cases hee : e.errexit with
      | true => exact Or.inl rfl
      | false =>
        -- status 0 although the rename failed: the destination is still the old one
        obtain ⟨b, hb, hdest⟩ := hat.success u (by rw [hrun, mvReturn, hmv]; simp [hee])
        rw [h] at hb
        cases hb
        exact Or.inr (Or.inr (hd.symm.trans hdest))
  · intro hcond
    constructor
    · intro w' h0
      refine ⟨bytes, h, ?_⟩
      rw [hrun, mvReturn] at h0
      cases hmv : e.mvFails with
      | none =>
        rw [hmv] at h0
        cases h0
        exact hp
      | some status =>
        rw [hmv] at h0 hcond
        rcases hcond with hee | hcond | hdest
        · simp [hee] at h0
        · cases hcond
        · simp only [Prod.mk.injEq] at h0
          rw [← h0.2, hd]
          exact hdest
    · intro hnone
      rw [h] at hnone
      cases hnone
    · rw [hrun, mvReturn]
      cases e.mvFails with
      | none => exact hc
      | some status => exact hc
    · intro hmv status w' h0
      rw [hrun, mvReturn, hmv] at h0
      cases h0
      rfl

theorem fetchSource_atomic_iff {mirrors : List Mirror} (hne : mirrors ≠ []) (w : World) :
    Atomic e destination mirrors w ↔
      e.errexit = true ∨ e.mvFails = none ∨ firstPassing e destination mirrors = none ∨
        firstPassing e destination mirrors = w.destination := by
  cases h : firstPassing e destination mirrors with
  | none => exact iff_of_true (atomic_of_none hne h) (Or.inr (Or.inr (Or.inl rfl)))
  | some bytes =>
    rw [atomic_iff_of_some hne h]
    simp [eq_comm (a := some bytes)]

/-- Two mirrors, the second good, and a rename that works. -/
theorem fetchSource_atomic_fallback :
    Atomic ⟨⟨fun _ b => some b, fun b => some [str b.length]⟩, false, none⟩ "gmp.tar.xz".toList
      [⟨"a".toList, .fails (some [1])⟩, ⟨"b".toList, .succeeds [2]⟩] ⟨none, none, [], []⟩ :=
  (fetchSource_atomic_iff (by decide) _).mpr (Or.inr (Or.inl rfl))

/-- Called from the condition of an `if`, with a rename that fails: status 0, and nothing at the
    destination. -/
theorem not_fetchSource_atomic :
    ¬ Atomic ⟨⟨fun _ b => some b, fun b => some [str b.length]⟩, false, some 1⟩ "gmp.tar.xz".toList
      [⟨"a".toList, .succeeds [2]⟩] ⟨none, none, [], []⟩ := by
  intro h
  obtain ⟨b, -, hd⟩ := h.success _ rfl
  cases hd

end Fetch

end Download
