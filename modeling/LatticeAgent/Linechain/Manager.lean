import Mathlib.Data.List.AList
import Mathlib.Data.List.Sort
import Mathlib.Logic.Function.Basic
import LatticeAgent.Lib.CutProg
import LatticeAgent.Lib.Durable
import LatticeAgent.Linechain.Document

/-! # The linechain transaction manager

`Manager.apply`, `resolveAfterRun`, `recoverOne` and `cleanup` as programs over the host:
the artifact files, and the transaction directory with a journal and two backups for each
(task, lease). Every access to the host is one step, so a run can be cut between any two
of them, and the outcome of each step is the choice of the outside world (`Choice`).

A file is replaced atomically: the rename (`write`) makes the new content visible, and the
syncs that follow (`sync`) may still fail after it. -/

namespace LatticeAgent.Linechain

open CutProg

/-- The two artifacts of a chain. -/
inductive Artifact where
  | fragment
  | sidecar
deriving DecidableEq, Repr

/-- The transaction directory: journals by file name, and the `.old` files beside them. -/
structure TxnDir where
  journal : AList (fun _ : String => Journal)
  backup : Artifact → String → Option Bytes

/-- The host as the manager sees it. -/
structure Host where
  files : Path → Option Bytes
  txn : Synced TxnDir

/-- What the outside world decides at one step; each step reads the field of its own seam,
and an error there is the text of the failure. -/
structure Choice where
  /-- Opening, reading or inspecting a file. -/
  read : Option String := none
  /-- Everything up to and including the rename or unlink that changes a file. -/
  write : Option String := none
  /-- The file and directory syncs after it. -/
  sync : Option String := none
  /-- `m.remove`. -/
  remove : Option String := none
  /-- `m.syncDirectory`, which only `Cleanup` uses. -/
  syncDirectory : Option String := none
  /-- `m.run`. -/
  run : Option String := none
  /-- The `complete` callback of a recovery. -/
  complete : Option String := none
  /-- `time.Now()`. -/
  now : Time := 1
deriving DecidableEq, Repr

abbrev HostProg := Prog Choice Host String

namespace Journal
variable (j : Journal)

def path : Artifact → Path
  | .fragment => j.fragmentPath
  | .sidecar => j.sidecarPath

def had : Artifact → Bool
  | .fragment => j.fragmentHadOld
  | .sidecar => j.sidecarHadOld

def old : Artifact → String
  | .fragment => j.fragmentOld
  | .sidecar => j.sidecarOld

def output : Artifact → String
  | .fragment => j.fragmentOutputSHA256
  | .sidecar => j.sidecarOutputSHA256

end Journal

/-! ### Accesses to the host -/

/-- A step that fails with the error of its seam and changes nothing then. -/
def access {α : Type} (seam : Choice → Option String) (f : Host → Except String α × Host) :
    HostProg α :=
  .step fun c h => match seam c with
    | some e => (.error e, h)
    | none => f h

/-- The visible transaction directory of a host, changed. -/
def Host.writeTxn (h : Host) (f : TxnDir → TxnDir) : Host := { h with txn := h.txn.write f }

/-- The transaction directory of a host, synced. -/
def Host.syncTxn (h : Host) : Host := { h with txn := h.txn.sync }

def TxnDir.setJournal (t : TxnDir) (key : String) (j : Journal) : TxnDir :=
  { t with journal := t.journal.insert key j }

def TxnDir.eraseJournal (t : TxnDir) (key : String) : TxnDir :=
  { t with journal := t.journal.erase key }

def TxnDir.setBackup (t : TxnDir) (a : Artifact) (key : String) (b : Option Bytes) : TxnDir :=
  { t with backup := Function.update t.backup a (Function.update (t.backup a) key b) }

/-- The size check of `readValidatedFile`. -/
def sized (name : String) : Option Bytes → Except String (Option Bytes)
  | some b =>
    if maxArtifactSize < b.length then
      .error ("linechain file exceeds 4194304 bytes: " ++ name)
    else .ok (some b)
  | none => .ok none

def readCurrent (p : Path) : HostProg (Option Bytes) :=
  access Choice.read fun h => (sized p.text (h.files p), h)

def readBackup (a : Artifact) (key : String) : HostProg (Option Bytes) :=
  access Choice.read fun h => (sized key (h.txn.visible.backup a key), h)

/-- `os.Lstat` of the parents of a path. -/
def validateParents (_ : Path) : HostProg Unit :=
  access Choice.read fun h => (.ok (), h)

/-- `publish`: replace the file, or unlink it, then sync its directory. -/
def publish (p : Path) (content : Option Bytes) : HostProg Unit := do
  access Choice.write fun h => (.ok (), { h with files := Function.update h.files p content })
  access Choice.sync fun h => (.ok (), h)

def writeBackup (a : Artifact) (key : String) : Option Bytes → HostProg Unit
  | none => .ret ()
  | some b => do
    access Choice.write fun h => (.ok (), h.writeTxn (·.setBackup a key (some b)))
    access Choice.sync fun h => (.ok (), h.syncTxn)

def writeJournal (key : String) (j : Journal) : HostProg Unit := do
  access Choice.write fun h => (.ok (), h.writeTxn (·.setJournal key j))
  access Choice.sync fun h => (.ok (), h.syncTxn)

/-- `time.Now().UTC()`. -/
def timeNow : HostProg Time := .step fun c h => (.ok c.now, h)

section manager
variable (cx : Codec) (m : Manager)

/-- The name of a journal, without its suffix. -/
def journalKey (taskID leaseID : String) : String :=
  cx.digest (utf8 (taskID ++ "\x00" ++ leaseID))

/-- The checks `readJournal` makes on a journal it could open. -/
def checkJournal (j : Journal) : Except String Unit := do
  refuse (decide (maxDocumentSize < (cx.marshalJournal j).length))
    "linechain journal exceeds 4194304 bytes"
  refuse (j.version != journalVersion || j.taskID == "" || j.leaseID == "")
    "invalid linechain journal identity"

/-- `readJournal`; `none` is `os.ErrNotExist`. -/
def readJournal (key : String) : HostProg (Option Journal) :=
  access Choice.read fun h =>
    match h.txn.visible.journal.lookup key with
    | none => (.ok none, h)
    | some j => ((checkJournal cx j).map fun _ => some j, h)

/-- `os.Lstat` of a journal: whether it exists. -/
def journalExists (key : String) : HostProg Bool :=
  access Choice.read fun h => (.ok (h.txn.visible.journal.lookup key).isSome, h)

/-- `os.ReadDir` of the transaction directory: the journals, by name. -/
def readDir : HostProg (List String) :=
  access Choice.read fun h => (.ok (h.txn.visible.journal.keys.insertionSort (· ≤ ·)), h)

/-- One command of the runtime; its own error is replaced by `msg`. -/
def runCommand (msg : String) : HostProg Unit :=
  .step fun c h => match c.run with
    | some _ => (.error msg, h)
    | none => (.ok (), h)

def checkRestartVerify : HostProg Unit := do
  runCommand "sing-box check failed"
  runCommand "sing-box restart failed"
  runCommand "sing-box active verification failed"

/-! ### The journal's own checks -/

def resultSHA : Option TaskResult → String
  | none => ""
  | some r => cx.digest (cx.marshalResult r)

def journalSHA (j : Journal) : String := cx.digest (cx.marshalJournal j)

/-- The digests of a journal have the shape its `had` flags say. -/
def journalDigestsOk (j : Journal) : Bool :=
  !((j.fragmentHadOld && !validSHA j.fragmentOld) || (!j.fragmentHadOld && j.fragmentOld != "") ||
    (j.sidecarHadOld && !validSHA j.sidecarOld) || (!j.sidecarHadOld && j.sidecarOld != "") ||
    (j.fragmentOutputSHA256 != "" && !validSHA j.fragmentOutputSHA256) ||
    !validSHA j.sidecarOutputSHA256 || !validSHA j.sidecarPatchSHA256 ||
    !validSHA j.artifactSHA256 || !validSHA j.taskScriptSHA)

/-- `validateJournal` up to its look at the backups. A `Phase` is one of the seven by
type, which is the check of `validPhase`. -/
def validateJournalShape (key : String) (j : Journal) : Except String Unit := do
  refuse (!m.configured) "linechain journal exists before runtime layout is configured"
  refuse (key != journalKey cx j.taskID j.leaseID)
    "linechain journal filename does not match task and lease"
  refuse (j.fragmentPath.dir != m.configDir || !linechainBasenameRE j.fragmentPath.base)
    "linechain journal fragment path is outside local authority"
  refuse (j.sidecarPath != m.sidecarPath)
    "linechain journal sidecar path is outside local authority"
  refuse (j.phase.terminal != j.result.isSome)
    "linechain journal phase/result shape is inconsistent"
  refuse (j.result.any fun r =>
      r.taskID != j.taskID || r.leaseID != j.leaseID || Time.isZero r.finishedAt)
    "linechain journal terminal result does not match its identity"
  refuse (!journalDigestsOk j) "linechain journal artifact digest shape is invalid"

/-- One backup of a journal has the shape and content the journal says. -/
def validateBackup (key : String) (j : Journal) (a : Artifact) : HostProg Unit := do
  let data ← readBackup a key
  .lift (refuse (data.isSome != j.had a || data.any (cx.digest · != j.old a))
    "linechain journal backup shape does not match authority")

def validateJournal (key : String) (j : Journal) : HostProg Unit := do
  .lift (validateJournalShape cx m key j)
  if j.phase.terminal then .ret () else
    .forEach (validateBackup cx key j) [.fragment, .sidecar]

/-! ### Restoring the old pair -/

/-- The digests of a pair are the desired or the old ones of the journal. -/
def Journal.names (j : Journal) (desired : Bool) (a b : Option Bytes) : Bool :=
  if desired then
    digestMaybe cx a == j.fragmentOutputSHA256 && digestMaybe cx b == j.sidecarOutputSHA256
  else
    a.isSome == j.fragmentHadOld && b.isSome == j.sidecarHadOld &&
      digestMaybe cx a == j.fragmentOld && digestMaybe cx b == j.sidecarOld

/-- Whether the pair on disk is the one the journal names; a pair that cannot be read is
not. -/
def pairMatches (j : Journal) (desired : Bool) : HostProg Bool := do
  let a ← .attempt (readCurrent j.fragmentPath)
  let b ← .attempt (readCurrent j.sidecarPath)
  match a, b with
  | .ok a, .ok b => return j.names cx desired a b
  | _, _ => return false

/-- Publish the old content of one artifact again, from its backup. -/
def restoreArtifact (key : String) (j : Journal) (a : Artifact) : HostProg Unit := do
  if j.had a then
    match ← readBackup a key with
    | none => .fail "required linechain backup is missing"
    | some data =>
      .lift (refuse (cx.digest data != j.old a) "backup digest mismatch")
      publish (j.path a) (some data)
  else publish (j.path a) none

/-- `restoreOld`; it returns the journal it wrote. -/
def restoreOld (key : String) (j : Journal) : HostProg Journal := do
  .forEach (restoreArtifact cx key j) [.fragment, .sidecar]
  if !(← pairMatches cx j false) then .fail "restored pair digest mismatch" else
    let j := { j with phase := .oldRestored }
    writeJournal key j
    return j

/-- Wrap the error of a program. -/
def orFail {α : Type} (p : HostProg α) (wrap : String → String) : HostProg α := do
  match ← Prog.attempt p with
  | .ok a => return a
  | .error e => .fail (wrap e)

def rollback (key : String) (j : Journal) (cause : String) : HostProg Unit := do
  let _ ← orFail (restoreOld cx key j) fun e => cause ++ "; rollback failed: " ++ e
  orFail checkRestartVerify fun e =>
    cause ++ "; exact old pair restored but service recovery failed: " ++ e
  .fail cause

/-- Restore the old pair, verify the runtime on it and record `result` with it. -/
def settleOld (key : String) (j : Journal) (wrapRestore wrapVerify : String → String)
    (result : TaskResult) : HostProg Journal := do
  let j ← orFail (restoreOld cx key j) wrapRestore
  orFail checkRestartVerify wrapVerify
  return { j with phase := .terminalOld, result := some result }

/-- Verify the runtime on the desired pair and record `desired` with it; where that fails,
fall back to the old pair and `old`. -/
def settleDesired (key : String) (j : Journal) (label : String) (desired old : TaskResult) :
    HostProg Journal := do
  match ← Prog.attempt checkRestartVerify with
  | .ok _ => return { j with phase := .terminalDesired, result := some desired }
  | .error verifyErr =>
    settleOld cx key j
      (fun e => label ++ " desired runtime verification failed: " ++ verifyErr ++
        "; restore old pair: " ++ e)
      (fun e => label ++ " desired runtime verification failed: " ++ verifyErr ++
        "; old runtime recovery failed: " ++ e)
      old

/-! ### Recovery -/

/-- What a recovery pass captured about a journal before it started. -/
structure RecoveryAuthority where
  taskScriptSHA : String
  artifactSHA256 : String
  phase : Phase
  resultSHA256 : String
  journalSHA256 : String
deriving DecidableEq, Repr

/-- The journal is still the captured one. -/
def RecoveryAuthority.admits (want : RecoveryAuthority) (j : Journal) : Bool :=
  journalSHA cx j == want.journalSHA256 && j.taskScriptSHA == want.taskScriptSHA &&
    j.artifactSHA256 == want.artifactSHA256 && j.phase == want.phase &&
    resultSHA cx j.result == want.resultSHA256

/-- The result of an interrupted transaction. -/
def interruptedResult (j : Journal) (nodeID : String) (now : Time) : TaskResult :=
  { taskID := j.taskID, leaseID := j.leaseID, nodeID := nodeID, exitCode := -1,
    error := "linechain transaction interrupted; exact old pair restored", finishedAt := now }

/-- Whether the desired pair was verified and still stands. -/
def desiredStands (j : Journal) : HostProg Bool :=
  if j.phase = .desiredVerified then pairMatches cx j true else pure false

/-- The terminal journal of a transaction found without a result. -/
def settleInterrupted (key : String) (j : Journal) (result : TaskResult) : HostProg Journal := do
  let desired ← desiredStands cx j
  if desired then
    settleDesired cx key j "recover" { result with exitCode := 0, error := "" }
      { result with
        error := "recovered desired runtime verification failed; exact old pair restored " ++
          "and verified" }
  else
    settleOld cx key j id (fun e => "recover old linechain pair service state: " ++ e) result

/-- The branch of `recoverOne` that resolves a journal without a result. -/
def resolveInterrupted (key : String) (j : Journal) (nodeID : String) : HostProg Journal := do
  let now ← timeNow
  let j ← settleInterrupted cx key j (interruptedResult j nodeID now)
  writeJournal key j
  return j

/-- `recoverOne` up to its callback: the terminal journal. -/
def recoverOne (key nodeID expectedScriptSHA : String) (expected : Option RecoveryAuthority) :
    HostProg Journal := do
  match ← readJournal cx key with
  | none => .fail "file does not exist"
  | some j =>
    validateJournal cx m key j
    .lift (refuse (expectedScriptSHA != "" && j.taskScriptSHA != expectedScriptSHA)
      "linechain retry task script does not match journal authority")
    .lift (refuse (expected.any fun want => !want.admits cx j)
      "linechain journal changed after authority capture")
    if j.result.isNone then resolveInterrupted cx key j nodeID else return j

/-! ### Applying a document -/

def requirePrevious (name : String) (data : Option Bytes) (want : String) :
    Except String Unit :=
  if want = "" then
    refuse data.isSome ("unexpected existing " ++ name ++ " artifact")
  else
    refuse (data.map cx.digest != some (String.ofList (want.toList.map Char.toLower)))
      (name ++ " artifact does not match previous digest")

/-- The journal `Apply` writes first. -/
def preparedJournal (d : Document) (taskID leaseID script : String)
    (fragmentOld sidecarOld sidecarOutput : Option Bytes) : Journal :=
  { version := journalVersion, taskID := taskID, leaseID := leaseID,
    fragmentPath := d.fragmentPath, sidecarPath := d.sidecarPath,
    fragmentOld := digestMaybe cx fragmentOld, sidecarOld := digestMaybe cx sidecarOld,
    artifactSHA256 := d.artifactSHA256, sidecarPatchSHA256 := d.sidecarPatchSHA256,
    fragmentOutputSHA256 := digestPtr cx d.fragment,
    sidecarOutputSHA256 := digestPtr cx sidecarOutput, taskScriptSHA := script,
    fragmentHadOld := fragmentOld.isSome, sidecarHadOld := sidecarOld.isSome,
    phase := .prepared, result := none }

def validateDocument (d : Document) : HostProg Unit := do
  .lift (validateShape cx m d)
  validateParents d.fragmentPath
  validateParents d.sidecarPath
  .lift (validateDigests d)

/-- Publish one artifact and record the phase it leads to; a failed publication rolls back. -/
def publishPhase (key : String) (j : Journal) (label : String) (p : Path)
    (content : Option Bytes) (phase : Phase) : HostProg Journal := do
  match ← Prog.attempt (publish p content) with
  | .error e =>
    rollback cx key j ("publish " ++ label ++ ": " ++ e)
    return j
  | .ok _ =>
    let j := { j with phase := phase }
    writeJournal key j
    return j

/-- `Apply` from the first journal on. -/
def applyPublish (key : String) (d : Document) (sidecarOutput : Bytes) (j : Journal) :
    HostProg Unit := do
  writeJournal key j
  let j ← publishPhase cx key j "fragment" d.fragmentPath d.fragment .fragmentPublished
  let j ← publishPhase cx key j "sidecar" d.sidecarPath (some sidecarOutput) .pairPublished
  match ← Prog.attempt checkRestartVerify with
  | .error e => rollback cx key j e
  | .ok _ => writeJournal key { j with phase := .desiredVerified }

/-- `Apply` of a document for which there is no journal yet. -/
def applyFresh (key : String) (d : Document) (taskID leaseID script : String) :
    HostProg Unit := do
  let fragmentOld ← readCurrent d.fragmentPath
  let sidecarOld ← readCurrent d.sidecarPath
  .lift (requirePrevious cx "fragment" fragmentOld (d.previousFragmentSHA256.getD ""))
  match sidecarOld with
  | none => .fail "current semantic sidecar is required"
  | some current =>
    let merged ← .lift (cx.mergeManagedSidecar current d.sidecarPatch)
    writeBackup .fragment key fragmentOld
    writeBackup .sidecar key sidecarOld
    applyPublish cx key d merged
      (preparedJournal cx d taskID leaseID script fragmentOld sidecarOld (some merged))

/-- `Manager.Apply` on a document it has read. -/
def apply (raw : Bytes) (taskID leaseID taskScriptSHA : String) : HostProg Unit := do
  .lift (refuse (trimSpace taskID == "" || trimSpace leaseID == "")
    "task and lease identity are required")
  let scriptBinding := trimSpace taskScriptSHA
  .lift (refuse (!validSHA scriptBinding)
    "linechain task script binding is required and must be lowercase SHA-256")
  let d ← .lift (decodeDocument cx m raw)
  validateDocument cx m d
  let key := journalKey cx taskID leaseID
  if ← journalExists key then
    let _ ← recoverOne cx m key "" scriptBinding none
    return ()
  else applyFresh cx key d taskID leaseID scriptBinding

def stampFinished (r : TaskResult) (now : Time) : TaskResult :=
  if Time.isZero r.finishedAt then { r with finishedAt := now } else r

/-- The part of `ResolveAfterRun` that turns a journal without a result into a terminal
one. -/
def settleAfterRun (key : String) (j : Journal) (result : TaskResult) : HostProg Journal := do
  if result.exitCode = 0 ∧ result.error = "" ∧ j.phase = .desiredVerified then
    if !(← pairMatches cx j true) then .fail "desired linechain pair is not exact" else
      settleDesired cx key j "post-run" result
        { result with
          exitCode := -1,
          error := "desired linechain runtime verification failed after helper return; " ++
            "exact old pair restored and verified" }
  else
    settleOld cx key j id
      (fun e => "verify restored old linechain runtime after helper failure: " ++ e)
      { result with
        exitCode := if result.exitCode = 0 then -1 else result.exitCode,
        error := if result.error = "" then
            "linechain helper did not leave a verified desired pair; exact old pair restored"
          else result.error }

/-- `ResolveAfterRun`: the stable result of the transaction. A failed helper that left no
journal has changed nothing, and its result stands. -/
def resolveAfterRun (taskID leaseID : String) (result : TaskResult) : HostProg TaskResult := do
  let key := journalKey cx taskID leaseID
  match ← readJournal cx key with
  | none =>
    if result.exitCode ≠ 0 ∨ result.error ≠ "" then
      let now ← timeNow
      return stampFinished result now
    else .fail "file does not exist"
  | some j =>
    match j.result with
    | some r => return r
    | none =>
      let now ← timeNow
      let j ← settleAfterRun cx key j (stampFinished result now)
      writeJournal key j
      return j.result.getD result

def removeBackup (a : Artifact) (key : String) : HostProg Unit :=
  access Choice.remove fun h => (.ok (), h.writeTxn (·.setBackup a key none))

def removeJournal (key : String) : HostProg Unit :=
  access Choice.remove fun h => (.ok (), h.writeTxn (·.eraseJournal key))

def cleanup (taskID leaseID : String) : HostProg Unit := do
  let key := journalKey cx taskID leaseID
  removeBackup .fragment key
  removeBackup .sidecar key
  removeJournal key
  access Choice.syncDirectory fun h => (.ok (), h.syncTxn)

/-! ### Recovery passes

A pass calls back into its caller with each result, so it is a program over the caller's
state: `host` runs a program of the manager there. -/

section passes
variable {κ σ : Type} (host : {α : Type} → HostProg α → Prog κ σ String α)
  (complete : TaskResult → Prog κ σ String Unit)

/-- The captured authority for a journal, when there is one to respect. -/
def expectedAuthority (name : String) :
    Option (List (String × RecoveryAuthority)) → HostProg (Option RecoveryAuthority)
  | none => return none
  | some authority => do
    match ← readJournal cx name with
    | none => .fail "file does not exist"
    | some j =>
      match authority.lookup (j.taskID ++ "\x00" ++ j.leaseID) with
      | none => .fail "linechain recovery journal is outside captured authority"
      | some value => return some value

/-- `recoverOne` with its callback: cleanup follows the confirmed completion. -/
def recoverAndComplete (name nodeID : String) (expected : Option RecoveryAuthority) :
    Prog κ σ String Unit := do
  let j ← host (recoverOne cx m name nodeID "" expected)
  match j.result with
  | none => .ret ()
  | some r =>
    complete r
    host (cleanup cx j.taskID j.leaseID)

def requireRecoveredAuthorized (nodeID : String)
    (authority : Option (List (String × RecoveryAuthority))) : Prog κ σ String Unit := do
  let names ← host readDir
  .forEach (fun name => do
    let expected ← host (expectedAuthority cx name authority)
    recoverAndComplete cx m host complete name nodeID expected) names

end passes

/-- `Open`: the lock-owning process confirms the directory it found. -/
def openManager : HostProg Unit := do
  access Choice.read fun h => (.ok (), h)
  access Choice.sync fun h => (.ok (), h.syncTxn)

/-- The bounded identity needed to cross-check outbox authority. -/
structure JournalRef where
  taskID : String
  leaseID : String
  phase : Phase
  result : Option TaskResult
  terminal : Bool
  taskScriptSHA : String
  artifactSHA256 : String
  journalSHA256 : String
deriving DecidableEq, Repr

def Journal.ref (j : Journal) : JournalRef :=
  { taskID := j.taskID, leaseID := j.leaseID, phase := j.phase, result := j.result,
    terminal := j.phase.terminal, taskScriptSHA := j.taskScriptSHA,
    artifactSHA256 := j.artifactSHA256, journalSHA256 := journalSHA cx j }

/-- The loop of `Snapshot` over the directory. -/
def snapshotFrom : List String → List JournalRef → HostProg (List JournalRef)
  | [], refs => return refs
  | name :: names, refs => do
    .lift (refuse (decide (1024 ≤ refs.length)) "linechain journal capacity exceeded")
    match ← readJournal cx name with
    | none => .fail "file does not exist"
    | some j =>
      .lift (refuse (refs.any fun r =>
          r.taskID ++ "\x00" ++ r.leaseID == j.taskID ++ "\x00" ++ j.leaseID)
        ("duplicate linechain journal identity: " ++ j.taskID))
      .lift (refuse (name != journalKey cx j.taskID j.leaseID)
        ("linechain journal filename does not match task and lease: " ++ name ++ ".json"))
      validateJournal cx m name j
      snapshotFrom names (refs ++ [j.ref cx])

def snapshot : HostProg (List JournalRef) := do
  snapshotFrom cx m (← readDir) []

end manager
end LatticeAgent.Linechain
