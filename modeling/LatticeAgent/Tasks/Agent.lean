import LatticeAgent.Linechain.Manager
import LatticeAgent.Outbox.Store

/-! # The agent's task cycle

`pollTasks`, `executeTask`, `requireLinechainRecovered` and `flushTaskResultsRetain` as
programs over the outbox and the linechain host, and the life of one agent process: it opens
both directories, then recovers and runs task cycles, one after the other.

The server, the runner and the file systems are the outside world: which tasks a poll
returns, whether an upload is acknowledged, what a task does and returns, are choices. A
linechain task's script runs the agent's own helper, so what the runner does to the linechain
host is a sequence of `Apply` calls, each possibly cut. -/

namespace LatticeAgent.Tasks

open CutProg

/-- A task as the server leases it. -/
structure LeasedAgentTask where
  task : Task
  durableResult : Bool
  durableProtocol : String
deriving DecidableEq, Repr

/-- The state of the node that tasks touch. -/
structure World where
  host : Linechain.Host
  box : Outbox.Store

/-- What the runner did: the helper's attempts to apply a document, and the result. -/
structure RunOutcome where
  attempts : List (Bytes × List Linechain.Choice) := []
  result : TaskResult := { taskID := "", leaseID := "" }

/-- What the outside world decides at one step of the agent. -/
structure Choice where
  host : Linechain.Choice := {}
  box : Outbox.Choice := {}
  /-- The server's answer to an upload. -/
  post : Option String := none
  /-- The server's answer to a poll. -/
  fetch : Except String (List LeasedAgentTask) := .ok []
  run : RunOutcome := {}
  /-- Shutdown was requested. -/
  stop : Bool := false
  now : Time := 1

abbrev AgentProg := Prog Choice World String

/-- The configuration of the agent, and the codecs of its directories. -/
structure Config where
  nodeID : String
  linechainReady : Bool
  /-- The transaction manager, where there is one. -/
  manager : Option Linechain.Manager
  linechain : Linechain.Codec
  outbox : Outbox.Codec
  /-- `linechainArtifactSHAFromTaskScript`. -/
  artifactSHA : String → Except String String

/-- Run a program of the linechain manager. -/
def onHost {α : Type} (p : Linechain.HostProg α) : AgentProg α :=
  .embed Choice.host World.host (fun h w => { w with host := h }) p

/-- Run a program of the outbox. -/
def onBox {α : Type} (p : Outbox.StoreProg α) : AgentProg α :=
  .embed Choice.box World.box (fun b w => { w with box := b }) p

/-- The history, one event longer. -/
def World.record (w : World) (ev : Outbox.Event) : World := { w with box := w.box.record ev }

/-- Replace the error of a program. -/
def wrapErr {α : Type} (p : AgentProg α) (wrap : String → String) : AgentProg α := do
  match ← Prog.attempt p with
  | .ok a => return a
  | .error e => .fail (wrap e)

/-! ### The outside world -/

/-- `postAgentJSON` of a task result. -/
def postResult (r : TaskResult) : AgentProg Unit :=
  .step fun c w =>
    let w := w.record (.uploaded (r.taskID, r.leaseID) r)
    match c.post with
    | some e => (.error e, w)
    | none => (.ok (), w.record (.acked (r.taskID, r.leaseID) r))

/-- `GET /api/agent/tasks`. -/
def fetchTasks : AgentProg (List LeasedAgentTask) := .step fun c w => (c.fetch, w)

def timeNow : AgentProg Time := .step fun c w => (.ok c.now, w)

def protocolV2 : String := "linechain-e3-v2"

def isLinechainTask (t : LeasedAgentTask) : Bool := t.durableResult && t.durableProtocol == protocolV2

section agent
variable (cfg : Config)

/-- A directory holds the journal of the lease. -/
def inDir (task : Task) (dir : AList fun _ : String => Outbox.Entry) : Bool :=
  (dir.lookup (Outbox.entryKey cfg.outbox task.id task.leaseID)).any
    fun e => e.lease == (task.id, task.leaseID)

/-- The lease has its journal on disk, visible and durable. -/
def World.journaled (w : World) (task : Task) : Bool :=
  inDir cfg task w.box.dir.visible && inDir cfg task w.box.dir.durable

def linechainTaskScriptSHA (script : String) : String := cfg.linechain.digest (utf8 script)

/-- One attempt of the helper, under the identity of the task. -/
def helperRun (m : Linechain.Manager) (task : Task) (h : Linechain.Host)
    (a : Bytes × List Linechain.Choice) : Linechain.Host :=
  (Linechain.apply cfg.linechain m a.1 task.id task.leaseID
    (linechainTaskScriptSHA cfg task.script)).after a.2 h

/-- The helper's attempts, one after the other. -/
def helperRuns (task : Task) (attempts : List (Bytes × List Linechain.Choice))
    (h : Linechain.Host) : Linechain.Host :=
  match cfg.manager with
  | none => h
  | some m => attempts.foldl (helperRun cfg m task) h

/-- `runTask`: only a linechain task runs with the helper's environment. -/
def runTask (t : LeasedAgentTask) : AgentProg TaskResult :=
  .step fun c w =>
    let ev := .ran (t.task.id, t.task.leaseID) t.durableResult (w.journaled cfg t.task)
    let host := if isLinechainTask t then helperRuns cfg t.task c.run.attempts w.host else w.host
    (.ok { c.run.result with taskID := t.task.id, leaseID := t.task.leaseID },
      { w with host := host }.record ev)

/-- The body of the loop of `flushTaskResultsRetain`. -/
def flushEntry (retain : Bool) (e : Outbox.Entry) : AgentProg Unit := do
  match e.result with
  | none => .fail ("pending task result " ++ e.task.id ++ " is empty")
  | some r =>
    wrapErr (postResult r) fun err => "flush durable task result " ++ e.task.id ++ ": " ++ err
    if retain && e.durableProtocol == protocolV2 then .ret ()
    else wrapErr (onBox (Outbox.remove cfg.outbox e)) fun err =>
      "remove acknowledged task result " ++ e.task.id ++ ": " ++ err

def flushTaskResultsRetain (retain : Bool) : AgentProg Unit := do
  let pending ← wrapErr (onBox (Outbox.pending cfg.outbox)) fun err =>
    "read pending task results: " ++ err
  .forEach (flushEntry cfg retain) pending

def flushTaskResults : AgentProg Unit := flushTaskResultsRetain cfg false

/-! ### Linechain recovery -/

/-- The key under which an entry and a journal are compared. -/
def refKey (taskID leaseID : String) : String := taskID ++ "\x00" ++ leaseID

def findRef (refs : List Linechain.JournalRef) (e : Outbox.Entry) : Option Linechain.JournalRef :=
  refs.find? fun ref => refKey ref.taskID ref.leaseID == refKey e.task.id e.task.leaseID

def sameTaskResult (a b : TaskResult) : Bool :=
  cfg.linechain.marshalResult a == cfg.linechain.marshalResult b

/-- The body of the loop of `captureLinechainAuthority` over the outbox. -/
def crossCheckEntry (refs : List Linechain.JournalRef) (e : Outbox.Entry) :
    Except String Unit := do
  match findRef refs e with
  | none =>
    refuse (e.state == .leased && e.durableProtocol == protocolV2)
      ("leased E3 outbox " ++ e.task.id ++ " lacks exact linechain journal")
  | some ref =>
    refuse (e.durableProtocol != protocolV2)
      ("linechain journal " ++ e.task.id ++ " has mismatched outbox protocol")
    refuse (ref.taskScriptSHA != linechainTaskScriptSHA cfg e.task.script)
      ("linechain journal " ++ e.task.id ++ " does not match the exact outbox task script")
    refuse (match cfg.artifactSHA e.task.script with
        | .error _ => true
        | .ok sha => sha != ref.artifactSHA256)
      ("linechain journal " ++ e.task.id ++
        " does not match the issued artifact in the exact outbox script")
    refuse (e.state == .completed && !(ref.terminal && match e.result, ref.result with
        | some a, some b => sameTaskResult cfg a b
        | _, _ => false))
      ("completed E3 outbox " ++ e.task.id ++ " conflicts with linechain terminal result")

/-- The journal belongs to an entry of the outbox. -/
def matchedRef (entries : List Outbox.Entry) (ref : Linechain.JournalRef) : Bool :=
  entries.any fun e => refKey e.task.id e.task.leaseID == refKey ref.taskID ref.leaseID &&
    e.durableProtocol == protocolV2

def refAuthority (ref : Linechain.JournalRef) : String × Linechain.RecoveryAuthority :=
  (refKey ref.taskID ref.leaseID,
    { taskScriptSHA := ref.taskScriptSHA, artifactSHA256 := ref.artifactSHA256,
      phase := ref.phase, resultSHA256 := Linechain.resultSHA cfg.linechain ref.result,
      journalSHA256 := ref.journalSHA256 })

/-- What `captureLinechainAuthority` makes of the two snapshots. -/
def crossCheck (entries : List Outbox.Entry) (refs : List Linechain.JournalRef) :
    Except String (List (String × Linechain.RecoveryAuthority)) := do
  entries.forM (crossCheckEntry cfg refs)
  match refs.find? fun ref => !matchedRef entries ref with
  | some ref => .error ("linechain journal lacks exact leased E3 outbox: \"" ++
      refKey ref.taskID ref.leaseID ++ "\"")
  | none => return refs.map (refAuthority cfg)

def captureLinechainAuthority (m : Linechain.Manager) :
    AgentProg (List (String × Linechain.RecoveryAuthority)) := do
  let entries ← onBox (Outbox.snapshot cfg.outbox)
  let refs ← onHost (Linechain.snapshot cfg.linechain m)
  .lift (crossCheck cfg entries refs)

/-- The callback of a recovery pass: the result is completed in the outbox, durably. -/
def completeRecovered (r : TaskResult) : AgentProg Unit := do
  let w ← onBox (Outbox.complete cfg.outbox r)
  match w.err with
  | none => .ret ()
  | some err => if w.committed then onBox Outbox.confirmDurability else .fail err

def requireLinechainRecovered (m : Linechain.Manager) : AgentProg Unit := do
  let authority ← captureLinechainAuthority cfg m
  Linechain.requireRecoveredAuthorized cfg.linechain m onHost (completeRecovered cfg)
    cfg.nodeID (some authority)

/-- Run a part of the cycle that needs the manager. -/
def withManager (f : Linechain.Manager → AgentProg Unit) : AgentProg Unit :=
  match cfg.manager with
  | none => .ret ()
  | some m => f m

/-! ### The cycle -/

def pollTasks : AgentProg (List LeasedAgentTask) := do
  withManager cfg (requireLinechainRecovered cfg)
  wrapErr (onBox (Outbox.recoverInterrupted cfg.outbox cfg.nodeID)) fun err =>
    "recover interrupted task results: " ++ err
  flushTaskResults cfg
  fetchTasks

def validateDurablePair (t : LeasedAgentTask) : Except String Unit :=
  if !t.durableResult then
    refuse (t.durableProtocol != "")
      ("non-durable task has protocol \"" ++ t.durableProtocol ++ "\"")
  else do
    refuse (t.durableProtocol != protocolV2 && t.durableProtocol != "netguard-v1")
      ("durable task has unsupported protocol \"" ++ t.durableProtocol ++ "\"")
    refuse (t.durableProtocol == protocolV2 && (cfg.manager.isNone || !cfg.linechainReady))
      "linechain task received while durable linechain is unavailable"

/-- A task leased without the durable-result protocol: run it and report it once. -/
def executePlain (t : LeasedAgentTask) : AgentProg Unit := do
  let result ← runTask cfg t
  let now ← timeNow
  wrapErr (postResult (Linechain.stampFinished { result with nodeID := cfg.nodeID } now))
    fun err => "post task result " ++ t.task.id ++ ": " ++ err

/-- The report of a task whose lease could not be journaled. -/
def unexecuted (t : LeasedAgentTask) (now : Time) : TaskResult :=
  { taskID := t.task.id, leaseID := t.task.leaseID, nodeID := cfg.nodeID, exitCode := -1,
    error := "task was not executed because its durable lease journal could not be written",
    finishedAt := now }

/-- `executeTask` after a lease that could not be journaled durably. -/
def refuseLease (t : LeasedAgentTask) (committed : Bool) (err : String) : AgentProg Unit := do
  let journalErr := "journal task lease " ++ t.task.id ++ " before execution: " ++ err
  if committed then .fail journalErr
  else
    let now ← timeNow
    wrapErr (postResult (unexecuted cfg t now)) fun e =>
      journalErr ++ "; report unexecuted task: " ++ e
    .fail journalErr

/-- The task needs the manager, and there is one. -/
def managed (t : LeasedAgentTask) : Bool := cfg.manager.isSome && isLinechainTask t

/-- The linechain part of cleaning up after a durable completion; while the transaction
cannot be cleaned up its result is uploaded but stays in the outbox. -/
def cleanupOrRetain (t : LeasedAgentTask) (label : String) (replayable : String → String) :
    AgentProg Unit := do
  match ← Prog.attempt (onHost (Linechain.cleanup cfg.linechain t.task.id t.task.leaseID)) with
  | .ok _ => .ret ()
  | .error cleanupErr =>
    wrapErr (flushTaskResultsRetain cfg true) fun err =>
      label ++ cleanupErr ++ "; upload stable result: " ++ err
    .fail (replayable cleanupErr)

/-- `executeTask` after a completion that reported an error. -/
def completionFailed (t : LeasedAgentTask) (committed : Bool) (err : String) :
    AgentProg Unit := do
  let journalErr := "journal task result " ++ t.task.id ++ " before upload: " ++ err
  if committed then
    wrapErr (onBox Outbox.confirmDurability) fun e =>
      journalErr ++ "; confirm published task result: " ++ e
    if managed cfg t then
      cleanupOrRetain cfg t (journalErr ++ "; cleanup confirmed linechain task: ") fun err =>
        journalErr ++ "; cleanup confirmed linechain task: " ++ err ++ "; result remains replayable"
      wrapErr (flushTaskResults cfg) fun e => journalErr ++ "; upload confirmed task result: " ++ e
      .fail journalErr
    else
      wrapErr (flushTaskResults cfg) fun e => journalErr ++ "; upload confirmed task result: " ++ e
      .fail journalErr
  else .fail journalErr

/-- `executeTask` from the stable result on. -/
def reportResult (t : LeasedAgentTask) (result : TaskResult) : AgentProg Unit := do
  let w ← onBox (Outbox.complete cfg.outbox result)
  match w.err with
  | some err => completionFailed cfg t w.committed err
  | none =>
    if managed cfg t then
      cleanupOrRetain cfg t ("cleanup linechain task " ++ t.task.id ++ ": ") fun err =>
        "cleanup linechain task " ++ t.task.id ++
          " after durable outbox completion; result remains replayable: " ++ err
      flushTaskResults cfg
    else flushTaskResults cfg

/-- `executeTask` once the lease is journaled: run, resolve, report. -/
def runJournaled (t : LeasedAgentTask) : AgentProg Unit := do
  let result ← runTask cfg t
  let result := { result with nodeID := cfg.nodeID }
  if managed cfg t then
    let stable ← wrapErr (onHost (Linechain.resolveAfterRun cfg.linechain t.task.id
      t.task.leaseID result)) fun err => "resolve linechain task " ++ t.task.id ++ ": " ++ err
    reportResult cfg t stable
  else reportResult cfg t result

def executeDurable (t : LeasedAgentTask) : AgentProg Unit := do
  let w ← onBox (Outbox.begin cfg.outbox t.task t.durableProtocol)
  match w.err with
  | some err => refuseLease cfg t w.committed err
  | none => if !w.committed then .ret () else runJournaled cfg t

def executeTask (t : LeasedAgentTask) : AgentProg Unit := do
  .lift (validateDurablePair cfg t)
  .lift (refuse (t.durableProtocol != "" && t.durableProtocol != protocolV2 &&
      t.durableProtocol != "netguard-v1")
    ("unsupported durable protocol \"" ++ t.durableProtocol ++ "\""))
  if !t.durableResult then executePlain cfg t else executeDurable cfg t

/-- A batch in lease order, up to the first error or a requested shutdown. -/
def executeTasks : List LeasedAgentTask → AgentProg Unit
  | [] => .ret ()
  | t :: ts => do
    let stop ← .step fun c w => (.ok c.stop, w)
    if stop then .ret ()
    else
      executeTask cfg t
      executeTasks ts

/-- One task cycle: poll, then execute the leased batch. -/
def runTasks : AgentProg Unit := do
  let tasks ← pollTasks cfg
  executeTasks cfg tasks

/-- What the main loop does with the two directories; cycles and recovery never overlap. -/
inductive Activity where
  | recover
  | cycle
deriving DecidableEq, Repr

def Activity.prog : Activity → AgentProg Unit
  | .recover => withManager cfg (requireLinechainRecovered cfg)
  | .cycle => runTasks cfg

/-- One process: it opens both directories, or exits, and then works; an activity that
fails is logged and the loop goes on. -/
def process (acts : List Activity) : AgentProg Unit := do
  onBox (Outbox.openStore cfg.outbox)
  withManager cfg fun _ => onHost Linechain.openManager
  .forEach (fun a => do
    let _ ← Prog.attempt (a.prog cfg)
    return ()) acts

/-- One life of the agent on a node: how it was configured, what its main loop did, and what
the outside world decided, up to where the process ended. -/
structure Lifetime where
  nodeID : String
  linechainReady : Bool
  manager : Option Linechain.Manager
  acts : List Activity
  script : List Choice

/-- What a life leaves behind. -/
def Lifetime.after (l : Lifetime) (w : World) : World :=
  (process { cfg with nodeID := l.nodeID, linechainReady := l.linechainReady,
                      manager := l.manager } l.acts).after l.script w

end agent

/-! ### Proof rules -/

section rules
variable {cfg : Config} {A : Choice → Prop} {w : World} {α : Type}

variable {C : World → Prop} {E : String → World → Prop} {I : Outbox.Store → Prop}
  {p : Outbox.StoreProg α}

theorem wp_onBox {Q : α → Outbox.Store → Prop} {E : String → Outbox.Store → Prop}
    {C : Outbox.Store → Prop} {Q' : α → World → Prop} {E' : String → World → Prop}
    {C' : World → Prop} (h : wp (fun _ => True) p Q E C w.box)
    (hQ : ∀ a b, Q a b → Q' a { w with box := b }) (hE : ∀ e b, E e b → E' e { w with box := b })
    (hC : ∀ b, C b → C' { w with box := b }) : wp A (onBox p) Q' E' C' w :=
  wp_embed (fun _ _ => trivial) h hQ hE hC

theorem onHost_frame {p : Linechain.HostProg α} :
    Keeps A (fun w => I w.box) (fun w => I w.box) (onHost p) :=
  keeps_frame (fun _ _ h => h) fun _ h => h

theorem wp_wrapErr {p : AgentProg α} {wrap : String → String} {Q : α → World → Prop}
    (hp : wp A p Q (fun e => E (wrap e)) C w) : wp A (wrapErr p wrap) Q E C w := by
  refine wp_bind (wp_attempt ?_)
  exact wp_mono hp (fun _ _ h => wp_pure h) (fun _ _ h => wp_fail h) fun _ h => h

theorem wp_timeNow {Q : Time → World → Prop} (hC : C w) (hQ : ∀ t, Q t w) : wp A timeNow Q E C w :=
  wp_step hC fun c _ => hQ c.now

theorem onBox_keeps (hp : Keeps (fun _ => True) I I p) :
    Keeps A (fun w => I w.box) (fun w => I w.box) (onBox p) :=
  keeps_embed (fun _ _ => trivial) (fun _ _ => rfl) hp

theorem withManager_keeps {I : World → Prop} {f : Linechain.Manager → AgentProg Unit}
    (hf : ∀ m, Keeps A I C (f m)) : Keeps A I C (withManager cfg f) := by
  unfold withManager
  split
  · exact keeps_ret
  · exact hf _

end rules
end LatticeAgent.Tasks
