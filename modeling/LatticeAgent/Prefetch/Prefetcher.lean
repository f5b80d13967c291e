import LatticeAgent.Go
import LatticeAgent.Lib.Runs

/-! # The update prefetcher

The background download of the binary of the node's open update: what a locked section of
`Update`, `Hold`, `Release`, `Close` or of a finishing download does to the `Prefetcher`.

A section of the lock is one function. What it learns from the host (the clock, the directory
beside the agent's binary, the stamp of a file) is its argument `Host`; what it does outside the
`Prefetcher` (files removed, a download cancelled, a download started) is part of its result
`Kick`. A download attempt itself is seen only by what it answers (`Attempt`). -/

namespace LatticeAgent.Prefetch

/-- The elements of a cleaned path, last one first. -/
def cleanElems (rooted : Bool) : List (List Char) → List (List Char) → List (List Char)
  | done, [] => done
  | done, e :: rest =>
    if e = [] ∨ e = ['.'] then cleanElems rooted done rest
    else if e = ['.', '.'] then
      match done with
      | d :: ds =>
        if d = ['.', '.'] then cleanElems rooted (e :: done) rest else cleanElems rooted ds rest
      | [] => cleanElems rooted (if rooted then [] else [e]) rest
    else cleanElems rooted (e :: done) rest

/-- `filepath.IsAbs`. -/
def isAbs (path : String) : Bool := path.toList.head? == some '/'

/-- `filepath.Clean`. -/
def clean (path : String) : String :=
  let elems := cleanElems (isAbs path) [] (path.toList.splitOn '/')
  let body := ['/'].intercalate elems.reverse
  let out := if isAbs path then '/' :: body else body
  if out = [] then "." else String.ofList out

/-- `filepath.Dir`. -/
def dirOf (path : String) : String := clean (String.ofList (path.toList.rdropWhile (· ≠ '/')))

/-- `filepath.Join` of a directory and a name. -/
def join (dir name : String) : String := clean (dir ++ "/" ++ name)

/-! ### The file the server names -/

/-- `model.AgentUpdatePrefetch`: the file of the node's open update. -/
structure AgentUpdatePrefetch where
  approvalID : String := ""
  version : String := ""
  os : String := ""
  arch : String := ""
  sha256 : String := ""
  compressedSHA256 : String := ""
  size : Int := 0
  binarySize : Int := 0
  installPath : String := ""
deriving DecidableEq, Repr

/-- `model.AgentUpdateConfig`: the update block of a config pull. -/
structure AgentUpdateConfig where
  target : Option AgentUpdatePrefetch := none
  keep : List String := []
deriving DecidableEq, Repr

def partialPrefix : String := ".lattice-agent-download-"
def defaultInstallPath : String := "/opt/lattice/node-agent/lattice-agent"
def oldDefaultInstallPath : String := "/opt/lattice/lattice-agent"
def legacyInstallPath : String := "/usr/local/bin/lattice-agent"

def maxFileBytes : Int := 48 * 2 ^ 20
def firstBackoff : Duration := 30 * second
def maxBackoff : Duration := 900 * second
def progressRetry : Duration := 10 * second
def minProgress : Int := 16 * 2 ^ 10
def maxKeep : Nat := 16
def maxReason : Nat := 200

def isDigit (c : Char) : Bool := '0' ≤ c && c ≤ '9'
def isAlnum (c : Char) : Bool := ('A' ≤ c && c ≤ 'Z') || ('a' ≤ c && c ≤ 'z') || isDigit c

/-- `^[A-Za-z0-9_-]{1,64}$`. -/
def approvalIDRe (s : String) : Bool :=
  decide (1 ≤ s.toList.length ∧ s.toList.length ≤ 64) &&
    s.toList.all fun c => isAlnum c || c == '_' || c == '-'

/-- `^[A-Za-z0-9][A-Za-z0-9._+:-]{0,63}$`. -/
def versionRe (s : String) : Bool :=
  decide (1 ≤ s.toList.length ∧ s.toList.length ≤ 64) && (s.toList.take 1).all isAlnum &&
    s.toList.all fun c => isAlnum c || c ∈ ['.', '_', '+', ':', '-']

/-- `^[a-f0-9]{64}$`. -/
def digestRe (s : String) : Bool :=
  s.toList.length == 64 && s.toList.all fun c => ('a' ≤ c && c ≤ 'f') || isDigit c

/-- The digest of the bytes fetched and the name of their file. -/
def servedDigest (t : AgentUpdatePrefetch) : String :=
  if t.compressedSHA256 ≠ "" then t.compressedSHA256 else t.sha256

def validateTarget (t : AgentUpdatePrefetch) : Except String Unit := do
  refuse (!approvalIDRe t.approvalID) "approval id is not a plain identifier"
  refuse (!versionRe t.version) "version is not a plain version string"
  refuse (!digestRe t.sha256) "sha256 is not a 64-character lowercase hex digest"
  refuse (t.compressedSHA256 != "" && !digestRe t.compressedSHA256)
    "compressed sha256 is not a 64-character lowercase hex digest"
  refuse (decide (t.size ≤ 0 ∨ t.size > maxFileBytes ∨ t.binarySize ≤ 0 ∨
    t.binarySize > maxFileBytes)) ("sizes must be between 1 and " ++ toString maxFileBytes ++ " bytes")
  refuse (t.compressedSHA256 == "" && t.size != t.binarySize)
    "an uncompressed file must be the size of the binary"
  refuse (!isAbs t.installPath || clean t.installPath != t.installPath ||
    t.installPath.toList.contains '\x00') "install path is not a clean absolute path"

/-- The directory the update script keeps its download in, where that is the agent's own. -/
def scriptDir (installPath executable : String) : Option String :=
  let own := "/lattice-agent".toList.isSuffixOf executable.toList &&
    [defaultInstallPath, oldDefaultInstallPath, legacyInstallPath].contains installPath
  let target := if own then executable else installPath
  if executable = "" ∨ target ≠ executable then none else some (dirOf target)

/-! ### The prefetcher -/

/-- The parts of `Options` that the locked sections read. -/
structure Options where
  executable : String := ""
  agentVersion : String := ""
  veto : Bool := false
  root : Bool := false
  canRunUpdate : Bool := false
  goos : String := ""
  goarch : String := ""
deriving DecidableEq, Repr

/-- The `model.AgentPrefetch…` states; no state is the empty string of the source. -/
inductive FetchState where
  | refused | waiting | fetching | complete
deriving DecidableEq, Repr

/-- The zero value stands for no file. -/
structure FileStamp where
  path : String := ""
  size : Int := 0
  mtime : Time := 0
deriving DecidableEq, Repr

/-- A `*fetchRun`: `id` is the pointer, the place of the run among all that were started. -/
structure FetchRun where
  id : Nat
  key : String
deriving DecidableEq, Repr

structure Prefetcher where
  known : Bool := false
  cfg : AgentUpdateConfig := {}
  held : Nat := 0
  closed : Bool := false
  run : Option FetchRun := none
  key : String := ""
  state : Option FetchState := none
  reason : String := ""
  bytes : Int := 0
  failures : Nat := 0
  retryAt : Time := 0
  verified : FileStamp := {}
deriving DecidableEq, Repr

/-- An entry of a directory listing. -/
structure DirEntry where
  name : String
  isDir : Bool := false
deriving DecidableEq, Repr

/-- What the host answers during one locked section. -/
structure Host where
  now : Time := 0
  /-- The error of `secureDir`, if any. -/
  secureDir : Option String := none
  /-- `os.ReadDir`, where it succeeds. -/
  readDir : Option (List DirEntry) := none
  /-- Whether `os.Remove` of a path succeeds. -/
  removes : String → Bool := fun _ => true
  /-- Size and modification time of a path, where `os.Lstat` succeeds. -/
  lstat : String → Option (Int × Time) := fun _ => none

/-- What one download attempt answers. -/
structure Attempt where
  state : FetchState
  reason : String := ""
  bytes : Int := 0
  gained : Int := 0
deriving DecidableEq, Repr

/-- What `kickLocked` leaves: the prefetcher, and what it did outside it. -/
structure Kick where
  after : Prefetcher
  removed : List String := []
  cancelled : Bool := false
  /-- The path of the download that was started. -/
  started : Option String := none

def Host.stampOf (h : Host) (path : String) : FileStamp :=
  (h.lstat path).elim {} fun st => ⟨path, st.1, st.2⟩

/-- `fileStamp.matches`. -/
def FileStamp.same (s : FileStamp) (h : Host) (path : String) : Bool :=
  if s.path = "" ∨ s.path ≠ path then false
  else (h.stampOf path).size == s.size && (h.stampOf path).mtime == s.mtime

/-- Keeps printable ASCII and cuts to `n` bytes. -/
def boundReason (s : String) (n : Nat) : String :=
  String.ofList ((s.toList.filter fun c => decide (0x20 ≤ c.toNat ∧ c.toNat ≤ 0x7e)).take n)

namespace Prefetcher

variable (p : Prefetcher)

/-- Names the file the current config asks for, the empty string for none. -/
def keyLocked : String :=
  match p.known, p.cfg.target with
  | true, some t => t.approvalID ++ "|" ++ servedDigest t ++ "|" ++ t.installPath
  | _, _ => ""

def setLocked (state : FetchState) (reason : String) (bytes : Int) : Prefetcher :=
  { p with state := some state, reason := boundReason reason maxReason, bytes := bytes }

/-- The digests whose downloads `pruneLocked` keeps. -/
def kept (t : Option AgentUpdatePrefetch) : List String :=
  (p.cfg.keep.take maxKeep).filter digestRe ++
    match t with
    | some t => if validateTarget t = .ok () then [t.sha256, servedDigest t] else []
    | none => []

/-- The kept downloads that no open update names, which are removed. -/
def pruneLocked (h : Host) (dir : String) (t : Option AgentUpdatePrefetch) : List String :=
  let stale (e : DirEntry) : Bool :=
    partialPrefix.toList.isPrefixOf e.name.toList && !e.isDir &&
      !(p.kept t).contains (String.ofList (e.name.toList.drop partialPrefix.toList.length))
  (((h.readDir.getD []).filter stale).map fun e => join dir e.name).filter h.removes

/-- `strings.TrimPrefix(version, "v")`. -/
def trimV (version : String) : String :=
  match version.toList with
  | 'v' :: rest => String.ofList rest
  | _ => version

/-- The checks of `kickLocked` on the file the server names, in their order: the path to fetch it
to, or why the agent does not. -/
def fetchPath (o : Options) (dirErr : Option String) (t : AgentUpdatePrefetch) :
    Except String String := do
  refuse (!o.canRunUpdate) "task execution is disabled on this node, so no update can use the file"
  match validateTarget t with
  | .error e => throw ("the server named a file this agent does not fetch: " ++ e)
  | .ok () =>
    refuse (t.os != o.goos || t.arch != o.goarch)
      ("the file is for " ++ t.os ++ "/" ++ t.arch ++ " and this agent runs on " ++ o.goos ++ "/" ++
        o.goarch)
    refuse (trimV t.version == trimV o.agentVersion)
      ("this agent already runs version " ++ t.version)
    match scriptDir t.installPath o.executable with
    | none =>
      throw ("the update installs to " ++ boundReason t.installPath 80 ++
        ", not over this agent's own binary, and prefetch writes only beside that")
    | some dir =>
      match dirErr with
      | some e => throw e
      | none => return join dir (partialPrefix ++ servedDigest t)

/-- A new target forgets what was known of the last one. -/
def retarget (key : String) : Prefetcher :=
  if key ≠ p.key then
    { p with key := key, state := none, reason := "", bytes := 0, failures := 0, retryAt := 0 }
  else p

/-- The end of `kickLocked`: keep a complete file, wait out the backoff, or start the download
`fresh`. -/
def begin (h : Host) (fresh : Nat) (key path : String) : Kick :=
  if p.state = some .complete ∧ p.verified.same h path = true then { after := p }
  else if h.now < p.retryAt then { after := p }
  else
    { after := { p with run := some ⟨fresh, key⟩ }.setLocked .fetching "" p.bytes
      started := some path }

/-- `kickLocked` from the veto on, for a prefetcher that runs nothing. -/
def decideTarget (o : Options) (h : Host) (fresh : Nat) (key : String) : Kick :=
  let t := p.cfg.target
  let refused (reason : String) : Prefetcher :=
    if t.isSome then p.setLocked .refused reason 0 else p
  if o.veto then { after := refused "the node vetoes prefetch (-no-prefetch)" }
  else if !o.root then
    { after := refused ("the agent does not run as root, and the update continues only a download " ++
        "root owns") }
  else
    let dirErr :=
      if isAbs o.executable then h.secureDir else some "the agent cannot read its own path"
    let removed := if dirErr.isNone then p.pruneLocked h (dirOf o.executable) t else []
    match t with
    | none => { after := p, removed := removed }
    | some t =>
      match fetchPath o dirErr t with
      | .error e => { after := p.setLocked .refused e 0, removed := removed }
      | .ok path => { p.begin h fresh key path with removed := removed }

/-- Decides what to do with the current config: prune, refuse, keep a complete file, or start the
download `fresh`. -/
def kickLocked (o : Options) (h : Host) (fresh : Nat) : Kick :=
  if p.closed = true ∨ 0 < p.held then { after := p }
  else
    match p.run with
    | some run => { after := p, cancelled := run.key != p.keyLocked }
    | none =>
      let p' := p.retarget p.keyLocked
      if p'.known then p'.decideTarget o h fresh p.keyLocked else { after := p' }

/-- `Update` before it kicks: `none` is a server without the block. -/
def update (cfg : Option AgentUpdateConfig) : Prefetcher :=
  { p with known := cfg.isSome, cfg := cfg.getD {} }

/-- The locked section of `Hold`. -/
def hold : Prefetcher := { p with held := p.held + 1 }

def release : Prefetcher := { p with held := p.held - 1 }

/-- The pause after an attempt that moved nothing. -/
def backoff : Duration :=
  if p.failures < 10 then min (firstBackoff * 2 ^ p.failures) maxBackoff else maxBackoff

/-- The run in hand is over. -/
def forget (run : FetchRun) : Prefetcher :=
  if p.run.map FetchRun.id = some run.id then { p with run := none } else p

/-- What came of an attempt for the file the server names now. -/
def note (h : Host) (cancelled : Bool) (path : String) (a : Attempt) : Prefetcher :=
  if a.state = .complete then
    { p with failures := 0, retryAt := 0, verified := h.stampOf path }.setLocked a.state a.reason
      a.bytes
  else if cancelled then
    p.setLocked .waiting "stopped for a task or a new config; the next config pull resumes it" a.bytes
  else if minProgress ≤ a.gained then
    { p with failures := 0, retryAt := h.now + progressRetry }.setLocked a.state a.reason a.bytes
  else
    { p with failures := p.failures + 1, retryAt := h.now + p.backoff }.setLocked a.state a.reason
      a.bytes

/-- The locked section at the end of `fetch`, before it kicks. -/
def record (h : Host) (run : FetchRun) (cancelled : Bool) (path : String) (a : Attempt) :
    Prefetcher :=
  if (p.forget run).key = run.key then (p.forget run).note h cancelled path a else p.forget run

/-! ### What a section does to the run in hand -/

variable {p} {o : Options} {h : Host} (fresh : Nat)

theorem kickLocked_idle (hidle : p.closed ∨ 0 < p.held) :
    p.kickLocked o h fresh = { after := p } := if_pos hidle

theorem kickLocked_busy {run : FetchRun} (hrun : p.run = some run) :
    ∃ cancelled, p.kickLocked o h fresh = { after := p, cancelled := cancelled } := by
  unfold kickLocked
  split
  · exact ⟨false, rfl⟩
  · rw [hrun]
    exact ⟨_, rfl⟩

/-- A kick never holds, releases or closes, and the run in hand is then the one it started, if it
started one. -/
structure Kick.Follows (k : Kick) (p : Prefetcher) (run : FetchRun) : Prop where
  held : k.after.held = p.held
  closed : k.after.closed = p.closed
  run : k.after.run = if k.started.isSome then some run else p.run

theorem begin_follows (key path : String) :
    Kick.Follows (p.begin h fresh key path) p ⟨fresh, key⟩ := by
  unfold begin
  split
  · exact ⟨rfl, rfl, rfl⟩
  · split <;> exact ⟨rfl, rfl, rfl⟩

theorem decideTarget_follows (key : String) :
    Kick.Follows (p.decideTarget o h fresh key) p ⟨fresh, key⟩ := by
  have hrefused (reason : String) : Kick.Follows
      { after := if p.cfg.target.isSome then p.setLocked .refused reason 0 else p } p
      ⟨fresh, key⟩ := by
    cases p.cfg.target <;> exact ⟨rfl, rfl, rfl⟩
  unfold decideTarget
  split
  · exact hrefused _
  · split
    · exact hrefused _
    · cases p.cfg.target with
      | none => exact ⟨rfl, rfl, rfl⟩
      | some t =>
        dsimp only
        split
        · exact ⟨rfl, rfl, rfl⟩
        · rename_i path _
          obtain ⟨hheld, hclosed, hrun⟩ := begin_follows (p := p) (h := h) fresh key path
          exact ⟨hheld, hclosed, hrun⟩

theorem kickLocked_follows : Kick.Follows (p.kickLocked o h fresh) p ⟨fresh, p.keyLocked⟩ := by
  have hretarget (key : String) : (p.retarget key).held = p.held ∧
      (p.retarget key).closed = p.closed ∧ (p.retarget key).run = p.run := by
    unfold retarget
    split <;> exact ⟨rfl, rfl, rfl⟩
  obtain ⟨hheld, hclosed, hrun⟩ := hretarget p.keyLocked
  unfold kickLocked
  split
  · exact ⟨rfl, rfl, rfl⟩
  · cases hp : p.run with
    | some run => exact ⟨rfl, rfl, rfl⟩
    | none =>
      dsimp only
      split
      · obtain ⟨h₁, h₂, h₃⟩ := decideTarget_follows (p := p.retarget p.keyLocked) (o := o) (h := h)
          fresh p.keyLocked
        exact ⟨h₁.trans hheld, h₂.trans hclosed, h₃.trans (by rw [hrun])⟩
      · exact ⟨hheld, hclosed, hrun⟩

theorem note_frame (cancelled : Bool) (path : String) (a : Attempt) :
    (p.note h cancelled path a).run = p.run ∧ (p.note h cancelled path a).held = p.held ∧
      (p.note h cancelled path a).closed = p.closed := by
  unfold note
  split_ifs <;> exact ⟨rfl, rfl, rfl⟩

theorem record_frame (run : FetchRun) (hrun : p.run.map FetchRun.id = some run.id)
    (cancelled : Bool) (path : String) (a : Attempt) :
    (p.record h run cancelled path a).run = none ∧
      (p.record h run cancelled path a).held = p.held ∧
      (p.record h run cancelled path a).closed = p.closed := by
  have hforget : p.forget run = { p with run := none } := if_pos hrun
  unfold record
  rw [hforget]
  split
  · exact note_frame cancelled path a
  · exact ⟨rfl, rfl, rfl⟩

end Prefetcher
end LatticeAgent.Prefetch
