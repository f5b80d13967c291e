import LatticeAgent.Trace.Policy
import LatticeAgent.Trace.Guard
import LatticeAgent.Trace.Assembler
import LatticeAgent.Trace.LineRate

/-! # The trace collector

`traceCollector` ties the parts together: it applies the server's config, keeps one pipeline
(assembler, shipper, guard) and one log subscription running, routes every line to the
sessions that asked for its connection and forwards what was lost.

The parts that are nil or set together in the source (`asm`, `shipper`, `client`, `guard`,
`runCancel` and the address) are one optional `Pipeline`; the fields that only the status
reads are one record `Health`. Every call on a shipper is appended to `sent`. A step reads
the clock once. -/

namespace LatticeAgent.Trace

open List

/-! ### The status -/

/-- `model.CollectorState`. -/
inductive CollectorState where
  | off | noClashAPI | secretUnreadable | streamFailing | ready
deriving DecidableEq, Repr

/-- Where the address of the Clash API came from. -/
inductive AddrSource where
  | none | policy | config
deriving DecidableEq, Repr

/-- The collector's account of itself and what it is decided from. -/
structure Health where
  configured : Bool := false
  state : CollectorState := .off
  since : Time := 0
  clashAPIAddr : String := ""
  addrSource : AddrSource := .none
  detail : String := ""
  streamOpen : Bool := false
  streamOpened : Bool := false
  streamDownSince : Time := 0
  streamErr : String := ""
  connPollFailures : Nat := 0
  connErr : String := ""
  discoveryFailures : Nat := 0
  discoveryErr : String := ""
deriving DecidableEq, Repr

/-- `traceConnPollFailLimit`, which is also `traceDiscoveryFailLimit`. -/
def traceConnPollFailLimit : Nat := 3

def traceStreamGrace : Duration := 15 * second

namespace Health

variable (sdk : Sdk) (h : Health)

/-- `setStatusLocked`: the time moves only when the state does. -/
def setStatusLocked (state : CollectorState) (detail : String) (now : Time) : Health :=
  { h with
    configured := true
    detail := sdk.boundCollectorDetail detail
    state := state
    since := if h.state = state then h.since else now }

def setStatus (state : CollectorState) (detail addr : String) (source : AddrSource)
    (now : Time) : Health :=
  setStatusLocked sdk { h with clashAPIAddr := addr, addrSource := source } state detail now

/-- `evaluateStream` for a pipeline that is running against `addr`. -/
def evaluate (addr : String) (now : Time) : Health :=
  if traceConnPollFailLimit ≤ h.connPollFailures then
    h.setStatusLocked sdk .streamFailing ("connections: " ++ h.connErr) now
  else if traceConnPollFailLimit ≤ h.discoveryFailures then
    h.setStatusLocked sdk .noClashAPI
      (h.discoveryErr ++ "; the stream to " ++ addr ++ " keeps running") now
  else if h.streamOpen then h.setStatusLocked sdk .ready "" now
  else if !h.streamDownSince.isZero && traceStreamGrace ≤ now.sub h.streamDownSince then
    h.setStatusLocked sdk .streamFailing ("log stream: " ++ h.streamErr) now
  else if !h.streamOpened && h.streamErr != "" then
    h.setStatusLocked sdk .streamFailing ("log stream: " ++ h.streamErr) now
  else h

/-- A new subscription has no answer yet. -/
def noStream : Health :=
  { h with streamOpen := false, streamOpened := false, streamDownSince := 0, streamErr := "" }

/-- What `noteDiscovery` records of one read of the config. -/
def discovery (detail : String) : Health :=
  if detail = "" then { h with discoveryFailures := 0, discoveryErr := "" }
  else { h with discoveryFailures := h.discoveryFailures + 1, discoveryErr := detail }

end Health

/-! ### The collector -/

/-- A call on the shipper. -/
inductive Shipped where
  | records (rs : List ConnRecord)
  | lines (ls : List TraceLine)
  | unparsed (n : UInt64)
  | dropped (n : UInt64)
  | shed (n : UInt64)
  | core (generation : UInt64) (start : Time)
  | flush
deriving DecidableEq, Repr

/-- The lines a call adds. -/
def Shipped.traceLines : Shipped → List TraceLine
  | .lines ls => ls
  | _ => []

/-- What lives from `startPipeline` to `stop`. -/
structure Pipeline where
  asm : Assembler
  guard : Guard
  addr : String
  /-- The bearer secret the client holds. -/
  secret : String

/-- `traceCollector`. -/
structure Collector where
  nodeID : String
  configPath : String := "/etc/sing-box/config.json"
  policy : PolicySet := {}
  generation : UInt64 := 1
  coreStart : Time := 0
  pipeline : Option Pipeline := none
  haveLevel : String := ""
  /-- Whether a log subscription is running. -/
  streamCancel : Bool := false
  streamEpoch : UInt64 := 0
  lastUpload : Int := 0
  lastDownload : Int := 0
  sawTotals : Bool := false
  observationGaps : UInt64 := 0
  lastAsmDropped : UInt64 := 0
  lastAsmPartial : UInt64 := 0
  serverSkew : Duration := 0
  budget : Int := 0
  secretHash : Bytes := List.replicate 32 0
  health : Health := {}
  lineRing : LineRing := {}
  unparsedTotal : UInt64 := 0
  shedTotal : UInt64 := 0
  countersSince : Time := 0
  pending : AList (fun _ : UInt32 => List TraceLine) := ∅
  pendingOrder : List UInt32 := []
  tagged : AList (fun _ : UInt32 => List String) := ∅
  rawSourceID : String := ""
  rawQueue : List String := []
  rawDropped : UInt64 := 0
  rawEpoch : UInt64 := 0
  unparsed : UInt64 := 0
  sent : List Shipped := []

def tracePendingPerConn : Nat := 8
def tracePendingConns : Nat := 512
def traceRawQueueMax : Nat := 5000
def defaultTraceBudgetLines : Int := 5000

def newTraceCollector (nodeID : String) (start : Time) : Collector where
  nodeID := nodeID
  health := { since := start }
  countersSince := start

/-- `clashAPIConfig`: `experimental.clash_api` as the node's config has it. -/
structure ClashAPIConfig where
  present : Bool
  controller : String
deriving DecidableEq, Repr

/-- What one `applyConfig` reads off its node: the core's config, the secret, and the rule for
an address of a Clash API. -/
structure NodeView where
  /-- `readClashAPIConfig`; a failure is the text `resolveAddr` reports. -/
  clashAPI : Except String ClashAPIConfig
  /-- `resolveClashSecret`. -/
  secret : Except String String
  /-- `singboxapi.ValidateLoopbackAddr`. -/
  validateLoopbackAddr : String → Except String String

namespace Collector

variable (sdk : Sdk) (c : Collector)

/-- All lines ever added to a shipper. -/
def lines : List TraceLine := c.sent.flatMap Shipped.traceLines

/-- `shipper.AddLines`, where there are any. -/
def addLines (ls : List TraceLine) : Collector :=
  { c with sent := c.sent ++ if ls.isEmpty then [] else [.lines ls] }

/-- `shipper.AddRecords`, where there are any. -/
def addRecords (rs : List ConnRecord) : Collector :=
  { c with sent := c.sent ++ if rs.isEmpty then [] else [.records rs] }

def evaluateStream (now : Time) : Collector :=
  { c with
    health :=
      match c.pipeline with
      | none => c.health
      | some p => c.health.evaluate sdk p.addr now }

def setStatus (state : CollectorState) (detail addr : String) (source : AddrSource)
    (now : Time) : Collector :=
  { c with health := c.health.setStatus sdk state detail addr source now }

/-- `countLineLocked`. -/
def countLine (now : Time) : Collector := { c with lineRing := c.lineRing.countLine now }

/-- The connection that makes room when another one starts to wait. -/
def evictee : Option UInt32 :=
  if tracePendingConns ≤ c.pendingOrder.length then c.pendingOrder.head? else none

/-- `bufferPending`: a new connection queues up behind the others, the oldest of which may
have to go; a connection keeps its first few lines only. -/
def bufferPending (logID : UInt32) (l : TraceLine) : Collector :=
  if (c.tagged.lookup logID).isSome then c
  else
    let c :=
      if (c.pending.lookup logID).isSome then c
      else
        { c with
          pending := c.evictee.elim c.pending fun oldest => c.pending.erase oldest
          pendingOrder := c.evictee.elim c.pendingOrder (fun _ => c.pendingOrder.tail) ++ [logID] }
    let q := (c.pending.lookup logID).getD []
    if tracePendingPerConn ≤ q.length then c
    else { c with pending := c.pending.insert logID (q ++ [l]) }

/-- A line as one session gets it. -/
def stamp (l : TraceLine) (sessionID : String) : TraceLine := { l with sessionID := sessionID }

/-- `claimPending`: the opening lines that waited for the connection, for each session. -/
def claimPending (logID : UInt32) (sessionIDs : List String) : List TraceLine × Collector :=
  if (c.tagged.lookup logID).isSome then ([], c)
  else
    let q := (c.pending.lookup logID).getD []
    (sessionIDs.flatMap fun id => q.map fun l => stamp l id,
      { c with
        tagged := c.tagged.insert logID sessionIDs
        pending := c.pending.erase logID
        pendingOrder := c.pendingOrder.erase logID })

def forgetConn (logID : UInt32) : Collector :=
  { c with
    tagged := c.tagged.erase logID
    pending := c.pending.erase logID
    pendingOrder :=
      if (c.pending.lookup logID).isSome then c.pendingOrder.erase logID else c.pendingOrder }

/-! ### Pipeline and subscription -/

def effectiveRawSourceID (cfg : TraceAgentConfig) : String :=
  if cfg.policy.raw = some false then "" else trimSpace cfg.rawSourceID

/-- `setRawSourceLocked`: turning the raw source off discards what is queued. -/
def setRawSource (id : String) : Collector :=
  let discard := id = "" ∧ (c.rawQueue ≠ [] ∨ 0 < c.rawDropped)
  { c with
    rawQueue := if discard then [] else c.rawQueue
    rawDropped := if discard then 0 else c.rawDropped
    rawEpoch := if discard then c.rawEpoch + 1 else c.rawEpoch
    rawSourceID := id }

/-- The budget in force: zero means the agent's default. -/
def effectiveBudget (budget : Int) : Int :=
  if budget ≤ 0 then defaultTraceBudgetLines else budget

def setBudget (budget : Int) : Collector :=
  { c with
    budget := effectiveBudget budget
    pipeline := c.pipeline.map fun p =>
      { p with guard := p.guard.setBudget (effectiveBudget budget) } }

/-- `resolveAddr`: the address and its source, or else why there is none and whether that is
only a failure to read. -/
def resolveAddr (pol : TracePolicy) (node : NodeView) :
    Except (String × Bool) (String × AddrSource) :=
  let a := trimSpace pol.clashAPIAddr
  if a ≠ "" then .ok (a, .policy)
  else
    match node.clashAPI with
    | .error err => .error (err, true)
    | .ok api =>
      if !api.present then .error ("no experimental.clash_api in " ++ c.configPath, false)
      else if api.controller = "" then
        .error ("experimental.clash_api in " ++ c.configPath ++
          " has no external_controller", false)
      else
        match node.validateLoopbackAddr api.controller with
        | .error _ =>
          .error ("external_controller " ++ sdk.quote api.controller ++ " in " ++
            c.configPath ++ " is not a loopback host:port", false)
        | .ok addr => .ok (addr, .config)

def noteDiscovery (detail : String) (now : Time) : Collector :=
  ({ c with health := c.health.discovery detail }).evaluateStream sdk now

/-- Whether the node's secret is a new one that the core, its stream being down, may want. -/
def secretRotated (node : NodeView) : Option String :=
  match node.secret with
  | .error _ => none
  | .ok secret =>
    if sdk.sum256 (utf8 (trimSpace secret)) = c.secretHash ∨ c.pipeline.isNone = true ∨
        c.health.streamOpen = true then none
    else some secret

/-- `refreshSecret`: the caller should resubscribe if the secret rotated. -/
def refreshSecret (node : NodeView) : Bool × Collector :=
  match c.secretRotated sdk node with
  | none => (false, c)
  | some secret =>
    (true,
      { c with
        pipeline := c.pipeline.map fun p => { p with secret := trimSpace secret }
        secretHash := sdk.sum256 (utf8 (trimSpace secret)) })

/-- `restartStream`: the subscription of a running pipeline is reopened at a new level. -/
def restartStream (level : String) : Collector :=
  let running := c.pipeline.isSome
  { c with
    streamCancel := running || c.streamCancel
    haveLevel := if running then level else c.haveLevel
    streamEpoch := if running then c.streamEpoch + 1 else c.streamEpoch
    health := if running then c.health.noStream else c.health }

/-- What `stop` hands to the shipper of the pipeline it takes down. -/
def lastWords (p : Pipeline) : List Shipped :=
  let (records, _) := p.asm.drain
  let ((shed, dropped), _) := p.guard.take
  (if records.isEmpty then [] else [.records records]) ++ [.shed shed, .dropped dropped, .flush]

def stop : Collector :=
  { c with
    pipeline := none
    streamCancel := false
    haveLevel := ""
    streamEpoch := c.streamEpoch + 1
    health :=
      { c.health.noStream with
        connPollFailures := 0
        connErr := ""
        discoveryFailures := 0
        discoveryErr := "" }
    secretHash := List.replicate 32 0
    shedTotal := c.shedTotal + (c.pipeline.elim 0 fun p => p.guard.take.1.1)
    sent := c.sent ++ c.pipeline.elim [] lastWords }

def startPipeline (addr : String) (source : AddrSource) (node : NodeView) (now : Time) :
    Bool × Collector :=
  match node.secret with
  | .error err =>
    (false, c.setStatus sdk .secretUnreadable
      ("cannot read the Clash API secret: " ++ err) addr source now)
  | .ok secret =>
    match node.validateLoopbackAddr addr with
    | .error err => (false, c.setStatus sdk .noClashAPI err addr source now)
    | .ok _ =>
      (true,
        { c with
          pipeline := some
            { asm := Assembler.new { nodeID := c.nodeID, coreGeneration := c.generation }
              guard := Guard.new (effectiveBudget c.budget) defaultRingCapacity
              addr := addr
              secret := trimSpace secret }
          health :=
            { c.health with
              clashAPIAddr := addr
              addrSource := source
              connPollFailures := 0
              connErr := "" }
          secretHash := sdk.sum256 (utf8 (trimSpace secret))
          sent := c.sent ++ [.core c.generation c.coreStart] })

/-- What `applyConfig` records before it decides anything. -/
def install (cfg : TraceAgentConfig) (now : Time) : Collector :=
  let c :=
    { c with
      serverSkew := if cfg.serverTime.isZero then c.serverSkew else cfg.serverTime.sub now
      policy := PolicySet.build sdk cfg now }
  (c.setRawSource (effectiveRawSourceID cfg)).setBudget cfg.policy.budgetLinesPerSec

/-- The end of `applyConfig`: a subscription at another level, or with a new secret, is
reopened. -/
def resubscribe (have_ : String) (force : Bool) : Collector :=
  if have_ = c.policy.subscribeLevel sdk ∧ force = false then c
  else c.restartStream (c.policy.subscribeLevel sdk)

/-- A different Clash API means a different core, so the whole pipeline goes. -/
def leave (addr : String) : Collector :=
  match c.pipeline with
  | some p => if p.addr ≠ addr then c.stop else c
  | none => c

/-- `applyConfig` where no pipeline is running. -/
def bringUp (addr : String) (source : AddrSource) (node : NodeView) (now : Time) : Collector :=
  match c.startPipeline sdk addr source node now with
  | (false, c) => c
  | (true, c) => c.resubscribe sdk "" false

/-- `applyConfig` where the pipeline against `addr` is running. -/
def keepUp (addr : String) (source : AddrSource) (node : NodeView) : Collector :=
  let c := { c with health := { c.health with clashAPIAddr := addr, addrSource := source } }
  let (rotated, c) := c.refreshSecret sdk node
  c.resubscribe sdk c.haveLevel rotated

/-- `applyConfig` from the address on: a pipeline against `addr` and a subscription at the
level of the policy. -/
def reach (addr : String) (source : AddrSource) (node : NodeView) (now : Time) : Collector :=
  let c := c.leave addr
  match c.pipeline with
  | none => c.bringUp sdk addr source node now
  | some _ => c.keepUp sdk addr source node

def applyConfig (cfg : TraceAgentConfig) (node : NodeView) (now : Time) : Collector :=
  let c := c.install sdk cfg now
  if !c.policy.enabled then c.stop.setStatus sdk .off "" "" .none now
  else
    match c.resolveAddr sdk cfg.policy node with
    | .ok (addr, source) => (c.noteDiscovery sdk "" now).reach sdk addr source node now
    | .error (detail, transient) =>
      match c.pipeline with
      | some p =>
        -- A config that could not be read is no answer, so the running pipeline stays.
        if transient then
          (c.noteDiscovery sdk detail now).reach sdk p.addr c.health.addrSource node now
        else c.stop.setStatus sdk .noClashAPI detail "" .none now
      | none => c.stop.setStatus sdk .noClashAPI detail "" .none now

/-! ### Lines -/

/-- The user and the destination a line is matched by: its connection's, where known. -/
def matchContext (asm : Assembler) (l : Line) : String × String :=
  match (if l.hasLogID then asm.context l.logID else none) with
  | none => (l.user, l.dstHost)
  | some ctx =>
    (if ctx.user ≠ "" then ctx.user else l.user,
      if ctx.dstHost ≠ "" then ctx.dstHost else l.dstHost)

/-- `Set.Match` on a line, by its connection in the assembler. -/
def decide_ (asm : Assembler) (l : Line) : Decision :=
  let (user, dstHost) := matchContext asm l
  c.policy.match_ sdk l user dstHost

/-- A line as it is shipped, before a session is stamped on it. -/
def baseLine (l : Line) (now : Time) : TraceLine where
  nodeID := c.nodeID
  at_ := now
  level := l.level
  logID := l.logID
  tag := l.tag
  message := l.message
  raw := l.raw

/-- Every line that is kept goes to the raw source too. -/
def queueRaw (keep : Bool) (l : Line) : Collector :=
  let wanted := keep && c.rawSourceID != ""
  let room := decide (c.rawQueue.length < traceRawQueueMax)
  { c with
    rawQueue := if wanted && room then c.rawQueue ++ [l.raw] else c.rawQueue
    rawDropped := if wanted && !room then c.rawDropped + 1 else c.rawDropped }

/-- The sessions take a connection: its waiting lines are released and its record is tagged. -/
def claim (p : Pipeline) (logID : UInt32) (sessions : List String) : Collector :=
  let (backlog, c) := c.claimPending logID sessions
  ({ c with pipeline := some { p with asm := p.asm.tag logID sessions } }).addLines backlog

/-- `onEntry` after the assembler has seen the line: which sessions get it. -/
def route (p : Pipeline) (l : Line) (now : Time) : Collector :=
  let decision := c.decide_ sdk p.asm l
  let base := c.baseLine l now
  let c := c.queueRaw decision.keep l
  let claimed := c.tagged.lookup l.logID
  if l.hasLogID && claimed.isNone && decision.sessionIDs.isEmpty then c.bufferPending l.logID base
  else
    -- Membership is the connection's, so every later line rides on it.
    let sessions := if l.hasLogID then claimed.getD decision.sessionIDs else decision.sessionIDs
    let c := if l.hasLogID && claimed.isNone then c.claim p l.logID sessions else c
    if !decision.keep && claimed.isNone then c else c.addLines (sessions.map (stamp base))

/-- What the guard makes of an entry: the line that goes on, if any. An entry that is no JSON
has no line. -/
def guarded (p : Pipeline) (entry : Option Line) (now : Time) : Option Line × Guard :=
  match p.guard.ceiling now with
  | (false, guard) => (none, guard)
  | (true, guard) =>
    match entry with
    | none => (none, guard)
    | some l =>
      let l := { l with at_ := now }
      match guard.admitLine now l (l.hasLogID && p.asm.tracked l.logID) with
      | (false, guard) => (none, guard)
      | (true, guard) => (some l, guard)

/-- The counters of an entry: every entry counts for the rate, one under the ceiling that was
not understood counts as unparsed. -/
def counted (p : Pipeline) (entry : Option Line) (now : Time) : Collector :=
  let unread := (p.guard.ceiling now).1 && !entry.elim false Line.parsed
  { c.countLine now with
    unparsed := if unread then c.unparsed + 1 else c.unparsed
    unparsedTotal := if unread then c.unparsedTotal + 1 else c.unparsedTotal }

/-- `onEntry`: one entry of the log stream. -/
def onEntry (entry : Option Line) (now : Time) : Collector :=
  match c.pipeline with
  | none => c
  | some p =>
    let c := c.counted p entry now
    match guarded p entry now with
    | (none, guard) => { c with pipeline := some { p with guard := guard } }
    | (some l, guard) =>
      let p := { p with guard := guard, asm := p.asm.line sdk l now }
      ({ c with pipeline := some p }).route sdk p l now

/-! ### Ticks and polls -/

/-- `expireSessionsLocally`: the sessions whose deadline has passed by the server's clock are
dropped without waiting to hear it from the server. -/
def expireSessionsLocally (now : Time) : Collector :=
  let next := c.policy.expiresNext
  if next.isZero || now + c.serverSkew < next then c
  else
    let rebuilt := PolicySet.build sdk
      { policy := c.policy.policy, sessions := c.policy.activeSessions } (now + c.serverSkew)
    let c := { c with policy := rebuilt }
    if rebuilt.subscribeLevel sdk ≠ c.haveLevel then
      c.restartStream (rebuilt.subscribeLevel sdk)
    else c

/-- A drained record ends the bookkeeping of its connection, unless it is still open. -/
def forgetRecord (c : Collector) (r : ConnRecord) : Collector :=
  if r.open_ then c else c.forgetConn r.logID

/-- What a tick does with the records it drained. -/
def drained (records : List ConnRecord) : Collector :=
  (records.foldl forgetRecord c).addRecords records

/-- `flushRaw`; `taken` says whether the server took the batch. -/
def flushRaw (taken : Bool) : Collector :=
  let shipped := c.rawSourceID ≠ "" ∧ c.rawQueue ≠ [] ∧ taken = true
  { c with
    rawQueue := if shipped then [] else c.rawQueue
    rawDropped := if shipped then 0 else c.rawDropped }

/-- What a tick forwards of one assembler counter, and the new value of what has been
forwarded. -/
def forwardDelta (last current : UInt64) : UInt64 × UInt64 :=
  let d := current - last
  if 0 < d then (d, current) else (0, last)

/-- The counters' part of a tick. -/
def forwardCounts (p : Pipeline) : Collector :=
  let ((shed, dropped), guard) := p.guard.take
  let (d₁, lastAsmDropped) := forwardDelta c.lastAsmDropped p.asm.stats.dropped
  let (d₂, lastAsmPartial) := forwardDelta c.lastAsmPartial p.asm.stats.partials
  { c with
    pipeline := some { p with guard := guard }
    unparsed := 0
    shedTotal := c.shedTotal + shed
    lastAsmDropped := lastAsmDropped
    lastAsmPartial := lastAsmPartial
    sent := c.sent ++ [.unparsed c.unparsed, .dropped (dropped + d₁ + d₂), .shed shed] }

/-- One pass of `driveAssembler`. -/
def tick (taken : Bool) (now : Time) : Collector :=
  match c.pipeline with
  | none => c
  | some p =>
    let c := c.expireSessionsLocally sdk now
    let (records, asm) := (p.asm.tick now now).drain
    let c := (c.drained records).flushRaw taken
    (c.forwardCounts { p with asm := asm }).evaluateStream sdk now

/-- `noteStreamOpen`: a hook of a replaced subscription changes nothing. -/
def noteStreamOpen (epoch : UInt64) (now : Time) : Collector :=
  if c.streamEpoch ≠ epoch then c
  else
    ({ c with
      health := { c.health.noStream with streamOpen := true, streamOpened := true } }).evaluateStream
      sdk now

/-- `noteStreamError`: the grace runs from the first failure after the stream was up. -/
def noteStreamError (epoch : UInt64) (err : String) (now : Time) : Collector :=
  let c := { c with observationGaps := c.observationGaps + 1 }
  if c.streamEpoch ≠ epoch then c
  else
    ({ c with
      health :=
        { c.health with
          streamOpen := false
          streamDownSince := if c.health.streamDownSince.isZero then now
            else c.health.streamDownSince
          streamErr := err } }).evaluateStream sdk now

/-- `noteCoreRestart`: a new process draws its log ids afresh. -/
def noteCoreRestart (p : Pipeline) (now : Time) : Collector :=
  { c with
    generation := c.generation + 1
    coreStart := now
    pipeline := some
      { p with
        asm := p.asm.coreRestart (c.generation + 1) now now
        guard := p.guard.reset }
    sent := c.sent ++ [.core (c.generation + 1) now] }

/-- What a poll of the connection table answers: the totals of the process and its entries. -/
structure ConnectionsSnapshot where
  uploadTotal : Int
  downloadTotal : Int
  table : Snapshot
deriving DecidableEq, Repr

/-- The totals of a process only grow, so smaller ones are another process's. -/
def regressed (snap : ConnectionsSnapshot) : Bool :=
  c.sawTotals && (decide (snap.uploadTotal < c.lastUpload) ||
    decide (snap.downloadTotal < c.lastDownload))

/-- One pass of `pollConnections`. -/
def pollConnections (answer : Except String ConnectionsSnapshot) (now : Time) : Collector :=
  match c.pipeline with
  | none => c
  | some p =>
    match answer with
    | .error err =>
      ({ c with
        health :=
          { c.health with
            connPollFailures := c.health.connPollFailures + 1
            connErr := err } }).evaluateStream sdk now
    | .ok snap =>
      let restarted := c.regressed snap
      let c :=
        ({ c with
          health := { c.health with connPollFailures := 0, connErr := "" }
          lastUpload := snap.uploadTotal
          lastDownload := snap.downloadTotal
          sawTotals := true }).evaluateStream sdk now
      let c := if restarted then c.noteCoreRestart p now else c
      { c with
        pipeline := c.pipeline.map fun p =>
          { p with asm := p.asm.snapshot sdk snap.table now } }

/-! ### Frames

Each equation names the fields that a function may change: it leaves the others alone. -/

@[simp] theorem addLines_lines (ls : List TraceLine) : (c.addLines ls).lines = c.lines ++ ls := by
  unfold lines addLines
  cases ls <;> simp [Shipped.traceLines]

@[simp] theorem addLines_nil : c.addLines [] = c := by simp [addLines]

@[simp] theorem queueRaw_tagged (keep : Bool) (l : Line) :
    (c.queueRaw keep l).tagged = c.tagged := rfl

@[simp] theorem queueRaw_lines (keep : Bool) (l : Line) : (c.queueRaw keep l).lines = c.lines := rfl

theorem addRecords_lines (rs : List ConnRecord) : (c.addRecords rs).lines = c.lines := by
  unfold lines addRecords
  cases rs <;> simp [Shipped.traceLines]

theorem expire_eq (now : Time) :
    let e := c.expireSessionsLocally sdk now
    e = { c with
      policy := e.policy
      haveLevel := e.haveLevel
      streamCancel := e.streamCancel
      streamEpoch := e.streamEpoch
      health := e.health } := by
  unfold expireSessionsLocally
  dsimp only
  split
  · rfl
  · split <;> rfl

theorem expire_policy (now : Time) :
    (c.expireSessionsLocally sdk now).policy =
      if c.policy.expiresNext.isZero || now + c.serverSkew < c.policy.expiresNext then c.policy
      else PolicySet.build sdk
        { policy := c.policy.policy, sessions := c.policy.sessions } (now + c.serverSkew) := by
  unfold expireSessionsLocally
  dsimp only
  split
  · rfl
  · split <;> rfl

theorem expire_sessions {sdk : Sdk} {c : Collector} (h : c.policy.Normal sdk) (now : Time) :
    (c.expireSessionsLocally sdk now).policy.Normal sdk ∧
      ∀ sess ∈ (c.expireSessionsLocally sdk now).policy.sessions, sess ∈ c.policy.sessions := by
  rw [expire_policy]
  split
  · exact ⟨h, fun _ hs => hs⟩
  · exact ⟨PolicySet.build_normal _ _ _, fun sess hs => ((PolicySet.mem_rebuild h).mp hs).1⟩

theorem bufferPending_eq (logID : UInt32) (l : TraceLine) :
    let c' := c.bufferPending logID l
    c' = { c with pending := c'.pending, pendingOrder := c'.pendingOrder } := by
  unfold bufferPending
  dsimp only
  split
  · rfl
  · split <;> split <;> rfl

variable (records : List ConnRecord)

theorem forgetRecords_eq (c : Collector) :
    let c' := records.foldl forgetRecord c
    c' = { c with tagged := c'.tagged, pending := c'.pending, pendingOrder := c'.pendingOrder } := by
  induction records generalizing c with
  | nil => rfl
  | cons r records ih =>
    dsimp only [foldl_cons]
    rw [ih]
    unfold forgetRecord
    split <;> rfl

/-! ### What a line does -/

variable {sdk c} {p : Pipeline} {l : Line} {now : Time}

theorem keep_of_decide (h : (c.decide_ sdk p.asm l).sessionIDs ≠ []) :
    (c.decide_ sdk p.asm l).keep :=
  PolicySet.keep_of_match h

theorem route_taken (hid : l.hasLogID) {claimed : List String}
    (ht : c.tagged.lookup l.logID = some claimed) :
    c.route sdk p l now =
      (c.queueRaw (c.decide_ sdk p.asm l).keep l).addLines
        (claimed.map (stamp (c.baseLine l now))) := by
  simp [route, hid, ht]

theorem route_waits (hid : l.hasLogID) (ht : c.tagged.lookup l.logID = none)
    (hm : (c.decide_ sdk p.asm l).sessionIDs = []) :
    c.route sdk p l now =
      (c.queueRaw (c.decide_ sdk p.asm l).keep l).bufferPending l.logID (c.baseLine l now) := by
  simp [route, hid, ht, hm]

/-- The first line some sessions want takes its connection for them, with the lines that
waited. -/
theorem route_claims (hid : l.hasLogID) (ht : c.tagged.lookup l.logID = none)
    (hm : (c.decide_ sdk p.asm l).sessionIDs ≠ []) :
    c.route sdk p l now =
      let ids := (c.decide_ sdk p.asm l).sessionIDs
      (({ c.queueRaw (c.decide_ sdk p.asm l).keep l with
        tagged := c.tagged.insert l.logID ids
        pending := c.pending.erase l.logID
        pendingOrder := c.pendingOrder.erase l.logID
        pipeline := some { p with asm := p.asm.tag l.logID ids } }).addLines
          (ids.flatMap fun id =>
            ((c.pending.lookup l.logID).getD []).map fun l => stamp l id)).addLines
        (ids.map (stamp (c.baseLine l now))) := by
  simp only [route, claim, claimPending, hid, ht, queueRaw_tagged, keep_of_decide hm]
  simp [hm, queueRaw]

theorem route_plain (hid : l.hasLogID = false) :
    c.route sdk p l now =
      (c.queueRaw (c.decide_ sdk p.asm l).keep l).addLines
        ((c.decide_ sdk p.asm l).sessionIDs.map (stamp (c.baseLine l now))) := by
  simp only [route, hid, Bool.false_and, Bool.false_eq_true, if_false]
  split
  · rename_i hk
    have hnone : (c.decide_ sdk p.asm l).sessionIDs = [] := by
      by_contra hne
      simp [keep_of_decide hne] at hk
    simp [hnone]
  · rfl

/-- The lines `route` adds to the shipper, in the order they are added: those that waited for
the connection, where sessions take it, and the line itself. -/
def routeLines (sdk : Sdk) (c : Collector) (asm : Assembler) (l : Line) (now : Time) :
    List TraceLine :=
  let ids := (c.decide_ sdk asm l).sessionIDs
  let base := c.baseLine l now
  match l.hasLogID, c.tagged.lookup l.logID with
  | true, some held => held.map (stamp base)
  | true, none =>
    (ids.flatMap fun id => ((c.pending.lookup l.logID).getD []).map fun q => stamp q id) ++
      ids.map (stamp base)
  | false, _ => ids.map (stamp base)

theorem route_lines : (c.route sdk p l now).lines = c.lines ++ c.routeLines sdk p.asm l now := by
  unfold routeLines
  rcases hid : l.hasLogID with - | -
  · simp [route_plain hid]
  · rcases ht : c.tagged.lookup l.logID with - | held
    · by_cases hm : (c.decide_ sdk p.asm l).sessionIDs = []
      · rw [route_waits hid ht hm, bufferPending_eq, hm]
        exact (append_nil _).symm
      · rw [route_claims hid ht hm]
        dsimp only
        rw [addLines_lines, addLines_lines, append_assoc]
        rfl
    · simp [route_taken hid ht]

/-- The line an entry brings once the guard has admitted it, with the pipeline once its
assembler has seen it. -/
def admitted (sdk : Sdk) (c : Collector) (entry : Option Line) (now : Time) :
    Option (Line × Pipeline) :=
  match c.pipeline with
  | none => none
  | some p =>
    match guarded p entry now with
    | (none, _) => none
    | (some l, guard) => some (l, { p with guard := guard, asm := p.asm.line sdk l now })

/-- The two agree on what later proofs read, the pipeline apart. -/
structure Same (c c' : Collector) : Prop where
  policy : c'.policy = c.policy
  serverSkew : c'.serverSkew = c.serverSkew
  nodeID : c'.nodeID = c.nodeID
  haveLevel : c'.haveLevel = c.haveLevel
  streamCancel : c'.streamCancel = c.streamCancel
  tagged : c'.tagged = c.tagged
  pending : c'.pending = c.pending
  lastAsmDropped : c'.lastAsmDropped = c.lastAsmDropped
  lastAsmPartial : c'.lastAsmPartial = c.lastAsmPartial
  lines : c'.lines = c.lines

theorem onEntry_cases (sdk : Sdk) (hp : c.pipeline = some p) (entry : Option Line) (now : Time) :
    (c.admitted sdk entry now = none ∧ c.Same (c.onEntry sdk entry now) ∧
      ∃ guard, (c.onEntry sdk entry now).pipeline = some { p with guard := guard }) ∨
    ∃ l guard c₁, c.admitted sdk entry now =
        some (l, { p with guard := guard, asm := p.asm.line sdk l now }) ∧
      c.Same c₁ ∧ c₁.pipeline = some { p with guard := guard, asm := p.asm.line sdk l now } ∧
      c.onEntry sdk entry now =
        c₁.route sdk { p with guard := guard, asm := p.asm.line sdk l now } l now := by
  unfold admitted onEntry
  simp only [hp]
  rcases hg : guarded p entry now with ⟨l | l, guard⟩
  · exact .inl ⟨rfl, ⟨rfl, rfl, rfl, rfl, rfl, rfl, rfl, rfl, rfl, rfl⟩, guard, rfl⟩
  · refine .inr ⟨l, guard, { c.counted p entry now with
      pipeline := some { p with guard := guard, asm := p.asm.line sdk l now } }, rfl, ?_, rfl, rfl⟩
    exact ⟨rfl, rfl, rfl, rfl, rfl, rfl, rfl, rfl, rfl, rfl⟩

variable (cfg : TraceAgentConfig) {c₁ : Collector}

theorem Same.decide (h : c.Same c₁) (asm : Assembler) (l : Line) :
    c₁.decide_ sdk asm l = c.decide_ sdk asm l := by
  unfold decide_
  rw [h.policy]

theorem Same.baseLine (h : c.Same c₁) (l : Line) (now : Time) :
    c₁.baseLine l now = c.baseLine l now := by
  unfold Collector.baseLine
  rw [h.nodeID]

theorem Same.routeLines (h : c.Same c₁) (asm : Assembler) (l : Line) (now : Time) :
    c₁.routeLines sdk asm l now = c.routeLines sdk asm l now := by
  unfold Collector.routeLines
  rw [h.decide, h.baseLine, h.tagged, h.pending]

/-- The lines an entry adds to the shipper, in the order they are added. -/
def entryLines (sdk : Sdk) (c : Collector) (entry : Option Line) (now : Time) : List TraceLine :=
  (c.admitted sdk entry now).elim [] fun (l, p) => c.routeLines sdk p.asm l now

theorem onEntry_stopped (h : c.pipeline = none) (entry : Option Line) :
    c.onEntry sdk entry now = c := by
  simp [onEntry, h]

theorem onEntry_lines (sdk : Sdk) (c : Collector) (entry : Option Line) (now : Time) :
    (c.onEntry sdk entry now).lines = c.lines ++ c.entryLines sdk entry now := by
  rcases hp : c.pipeline with - | p
  · simp [onEntry_stopped hp, entryLines, admitted, hp]
  · rcases onEntry_cases sdk hp entry now with ⟨hadm, hsame, -⟩ | ⟨l, guard, c₁, hadm, hsame, -, heq⟩
    · simp [entryLines, hadm, hsame.lines]
    · rw [heq, route_lines, hsame.routeLines, hsame.lines, entryLines, hadm]
      rfl

/-- A list of sessions that hold a connection after a line held it before, or is what the
policy decided on that line. -/
theorem route_tagged {id : UInt32} {held : List String}
    (h : (c.route sdk p l now).tagged.lookup id = some held) :
    c.tagged.lookup id = some held ∨ held = (c.decide_ sdk p.asm l).sessionIDs := by
  rcases hid : l.hasLogID with - | -
  · rw [route_plain hid] at h
    exact .inl h
  · rcases ht : c.tagged.lookup l.logID with - | held'
    · by_cases hm : (c.decide_ sdk p.asm l).sessionIDs = []
      · rw [route_waits hid ht hm, bufferPending_eq] at h
        exact .inl h
      · rw [route_claims hid ht hm] at h
        change (c.tagged.insert l.logID (c.decide_ sdk p.asm l).sessionIDs).lookup id = _ at h
        by_cases he : id = l.logID
        · rw [he, AList.lookup_insert] at h
          exact .inr (Option.some.inj h).symm
        · rw [AList.lookup_insert_ne he] at h
          exact .inl h
    · rw [route_taken hid ht] at h
      exact .inl h

theorem route_eq :
    let c' := c.route sdk p l now
    c' = { c with
      pipeline := c'.pipeline
      tagged := c'.tagged
      pending := c'.pending
      pendingOrder := c'.pendingOrder
      rawQueue := c'.rawQueue
      rawDropped := c'.rawDropped
      sent := c'.sent } := by
  dsimp only
  rcases hid : l.hasLogID with - | -
  · rw [route_plain hid]
    rfl
  · rcases ht : c.tagged.lookup l.logID with - | held
    · by_cases hm : (c.decide_ sdk p.asm l).sessionIDs = []
      · rw [route_waits hid ht hm, bufferPending_eq]
        rfl
      · rw [route_claims hid ht hm]
        rfl
    · rw [route_taken hid ht]
      rfl

theorem route_pipeline (hp : c.pipeline = some p) :
    ∃ p', (c.route sdk p l now).pipeline = some p' ∧ p'.addr = p.addr ∧
      (p'.asm = p.asm ∨ ∃ ids, p'.asm = p.asm.tag l.logID ids) := by
  rcases hid : l.hasLogID with - | -
  · rw [route_plain hid]
    exact ⟨p, hp, rfl, .inl rfl⟩
  · rcases ht : c.tagged.lookup l.logID with - | held
    · by_cases hm : (c.decide_ sdk p.asm l).sessionIDs = []
      · rw [route_waits hid ht hm, bufferPending_eq]
        exact ⟨p, hp, rfl, .inl rfl⟩
      · rw [route_claims hid ht hm]
        exact ⟨_, rfl, rfl, .inr ⟨_, rfl⟩⟩
    · rw [route_taken hid ht]
      exact ⟨p, hp, rfl, .inl rfl⟩

theorem onEntry_eq (sdk : Sdk) (c : Collector) (entry : Option Line) (now : Time) :
    let c' := c.onEntry sdk entry now
    c' = { c with
      pipeline := c'.pipeline
      tagged := c'.tagged
      pending := c'.pending
      pendingOrder := c'.pendingOrder
      rawQueue := c'.rawQueue
      rawDropped := c'.rawDropped
      sent := c'.sent
      lineRing := c'.lineRing
      unparsed := c'.unparsed
      unparsedTotal := c'.unparsedTotal } := by
  unfold onEntry
  dsimp only
  split
  · rfl
  · split
    · rfl
    · rw [route_eq]
      rfl

theorem onEntry_pipeline (sdk : Sdk) (hp : c.pipeline = some p) (entry : Option Line) (now : Time) :
    ∃ p', (c.onEntry sdk entry now).pipeline = some p' ∧ p'.addr = p.addr ∧
      (p'.asm = p.asm ∨ ∃ l, p'.asm = p.asm.line sdk l now ∨
        ∃ ids, p'.asm = (p.asm.line sdk l now).tag l.logID ids) := by
  rcases onEntry_cases sdk hp entry now with ⟨-, -, guard, hguard⟩ | ⟨l, guard, c₁, -, -, hp₁, heq⟩
  · exact ⟨_, hguard, rfl, .inl rfl⟩
  · obtain ⟨p', hp', haddr, hasm⟩ := @route_pipeline sdk c₁ _ l now hp₁
    rw [heq]
    exact ⟨p', hp', haddr, .inr ⟨l, hasm⟩⟩

/-! ### What a tick does -/

/-- Some final record is about this log id. -/
def Ended (records : List ConnRecord) (id : UInt32) : Prop :=
  ∃ r ∈ records, r.open_ = false ∧ r.logID = id

instance (records : List ConnRecord) (id : UInt32) : Decidable (Ended records id) :=
  inferInstanceAs (Decidable (∃ r ∈ records, _))

theorem forgetRecords_tagged (c : Collector) (id : UInt32) :
    (Ended records id → (records.foldl forgetRecord c).tagged.lookup id = none) ∧
      (¬ Ended records id →
        (records.foldl forgetRecord c).tagged.lookup id = c.tagged.lookup id) := by
  induction records generalizing c with
  | nil => exact ⟨fun ⟨r, hr, _⟩ => absurd hr List.not_mem_nil, fun _ => rfl⟩
  | cons r records ih =>
    rw [foldl_cons]
    obtain ⟨hend, hkeep⟩ := ih (forgetRecord c r)
    by_cases hrest : Ended records id
    · refine ⟨fun _ => hend hrest, fun hn => absurd ?_ hn⟩
      obtain ⟨r', hr', h⟩ := hrest
      exact ⟨r', mem_cons_of_mem _ hr', h⟩
    · rw [hkeep hrest]
      constructor
      · rintro ⟨r', hr', hopen, hlog⟩
        rcases mem_cons.mp hr' with rfl | hr'
        · simp [forgetRecord, hopen, forgetConn, hlog]
        · exact absurd ⟨r', hr', hopen, hlog⟩ hrest
      · intro hn
        unfold forgetRecord
        split
        · rfl
        · rename_i hopen
          have hne : id ≠ r.logID := fun he =>
            hn ⟨r, mem_cons_self, by simpa using hopen, he.symm⟩
          exact AList.lookup_erase_ne hne

theorem forgetRecords_pending (c : Collector) {id : UInt32} {q : List TraceLine}
    (h : (records.foldl forgetRecord c).pending.lookup id = some q) :
    c.pending.lookup id = some q := by
  induction records generalizing c with
  | nil => exact h
  | cons r records ih =>
    have h := ih _ h
    unfold forgetRecord at h
    split at h
    · exact h
    · by_cases he : id = r.logID
      · subst he
        simp [forgetConn] at h
      · rwa [forgetConn, AList.lookup_erase_ne he] at h

variable (sdk)

/-- A tick: the policy and the subscription are what local expiry leaves, the bookkeeping loses
the connections that ended, and the assembler's counters are forwarded. -/
theorem tick_eq (hp : c.pipeline = some p) (taken : Bool) (now : Time) :
    let c' := c.tick sdk taken now
    let asm := p.asm.tick now now
    let forgot := asm.out.foldl forgetRecord (c.expireSessionsLocally sdk now)
    c' = { c.expireSessionsLocally sdk now with
      health := c'.health
      tagged := forgot.tagged
      pending := forgot.pending
      pendingOrder := forgot.pendingOrder
      lastAsmDropped := (forwardDelta c.lastAsmDropped asm.stats.dropped).2
      lastAsmPartial := (forwardDelta c.lastAsmPartial asm.stats.partials).2
      pipeline := some { p with asm := asm.drain.2, guard := p.guard.take.2 }
      rawQueue := c'.rawQueue
      rawDropped := c'.rawDropped
      unparsed := 0
      shedTotal := c'.shedTotal
      sent := c'.sent } := by
  simp only [tick, hp, drained, Assembler.drain]
  rw [forgetRecords_eq, expire_eq]
  rfl

/-- The calls of a tick on the shipper. -/
theorem tick_sent (hp : c.pipeline = some p) (taken : Bool) (now : Time) :
    (c.tick sdk taken now).sent = c.sent ++
      ((if (p.asm.tick now now).out.isEmpty then [] else [.records (p.asm.tick now now).out]) ++
        [.unparsed c.unparsed, .dropped (p.guard.take.1.2 +
          (forwardDelta c.lastAsmDropped (p.asm.tick now now).stats.dropped).1 +
          (forwardDelta c.lastAsmPartial (p.asm.tick now now).stats.partials).1),
          .shed p.guard.take.1.1]) := by
  simp only [tick, hp, drained, Assembler.drain]
  rw [forgetRecords_eq, expire_eq, ← append_assoc]
  rfl

theorem tick_lines (c : Collector) (taken : Bool) (now : Time) :
    (c.tick sdk taken now).lines = c.lines := by
  rcases hp : c.pipeline with - | p
  · simp [tick, hp]
  · rw [lines, tick_sent sdk hp]
    split <;> simp [lines, Shipped.traceLines]

theorem poll_eq (c : Collector) (answer : Except String ConnectionsSnapshot)
    (now : Time) :
    let c' := c.pollConnections sdk answer now
    c' = { c with
      pipeline := c'.pipeline
      health := c'.health
      lastUpload := c'.lastUpload
      lastDownload := c'.lastDownload
      sawTotals := c'.sawTotals
      generation := c'.generation
      coreStart := c'.coreStart
      sent := c'.sent } := by
  unfold pollConnections
  dsimp only
  split
  · rfl
  · split
    · rfl
    · split <;> rfl

theorem poll_lines (c : Collector) (answer : Except String ConnectionsSnapshot)
    (now : Time) : (c.pollConnections sdk answer now).lines = c.lines := by
  unfold pollConnections
  dsimp only
  split
  · rfl
  · split
    · rfl
    · split
      · simp [lines, noteCoreRestart, evaluateStream, Shipped.traceLines]
      · rfl

theorem poll_error (c : Collector) (err : String) (now : Time) :
    let c' := c.pollConnections sdk (.error err) now
    c' = { c with health := c'.health } := by
  unfold pollConnections
  dsimp only
  split <;> rfl

/-- A poll that succeeds: the totals are remembered, and a decrease is taken for a restart. -/
theorem poll_ok (hp : c.pipeline = some p) (snap : ConnectionsSnapshot) (now : Time) :
    let c' := c.pollConnections sdk (.ok snap) now
    c'.sawTotals = true ∧ c'.lastUpload = snap.uploadTotal ∧ c'.lastDownload = snap.downloadTotal ∧
      c'.generation = (if c.regressed snap then c.generation + 1 else c.generation) ∧
      ∃ p', c'.pipeline = some p' ∧ p'.addr = p.addr ∧
        p'.asm = (if c.regressed snap then p.asm.coreRestart (c.generation + 1) now now
          else p.asm).snapshot sdk snap.table now := by
  simp only [pollConnections, hp]
  split <;> exact ⟨rfl, rfl, rfl, rfl, _, rfl, rfl, rfl⟩

theorem poll_pipeline (hp : c.pipeline = some p)
    (answer : Except String ConnectionsSnapshot) (now : Time) :
    ∃ p', (c.pollConnections sdk answer now).pipeline = some p' ∧ p'.addr = p.addr ∧
      (p'.asm = p.asm ∨ ∃ snap : Snapshot, p'.asm = p.asm.snapshot sdk snap now ∨
        ∃ generation, p'.asm = (p.asm.coreRestart generation now now).snapshot sdk snap now) := by
  cases answer with
  | error err => exact ⟨p, by rw [poll_error, hp], rfl, .inl rfl⟩
  | ok snap =>
    obtain ⟨-, -, -, -, p', hp', haddr, hasm⟩ := poll_ok sdk hp snap now
    refine ⟨p', hp', haddr, .inr ⟨snap.table, ?_⟩⟩
    split at hasm
    · exact .inr ⟨_, hasm⟩
    · exact .inl hasm

/-! ### What a config does -/

/-- The two differ in what belongs to the pipeline and its subscription, and agree on the lines
shipped. -/
structure SameBooks (c c' : Collector) : Prop where
  eq : c' = { c with
    pipeline := c'.pipeline
    haveLevel := c'.haveLevel
    streamCancel := c'.streamCancel
    streamEpoch := c'.streamEpoch
    health := c'.health
    secretHash := c'.secretHash
    shedTotal := c'.shedTotal
    sent := c'.sent }
  lines : c'.lines = c.lines

namespace SameBooks

theorem refl (c : Collector) : c.SameBooks c := ⟨rfl, rfl⟩

theorem trans {c c' c'' : Collector} (h : c.SameBooks c') (h' : c'.SameBooks c'') :
    c.SameBooks c'' := by
  refine ⟨?_, h'.lines.trans h.lines⟩
  have heq := h'.eq
  rw [h.eq] at heq
  exact heq

theorem policy {c c' : Collector} (h : c.SameBooks c') : c'.policy = c.policy := by rw [h.eq]

end SameBooks

variable (c)

theorem stop_books : c.SameBooks c.stop := by
  refine ⟨rfl, ?_⟩
  rcases hp : c.pipeline with - | p
  · simp [lines, stop, hp]
  · simp only [lines, stop, hp, Option.elim_some, lastWords, flatMap_append]
    split <;> simp [Shipped.traceLines]

variable (addr : String) (source : AddrSource) (node : NodeView)

theorem startPipeline_books (now : Time) :
    c.SameBooks (c.startPipeline sdk addr source node now).2 := by
  unfold startPipeline
  split
  · exact ⟨rfl, rfl⟩
  · split
    · exact ⟨rfl, rfl⟩
    · exact ⟨rfl, by simp [lines, Shipped.traceLines]⟩

theorem resubscribe_books (have_ : String) (force : Bool) :
    c.SameBooks (c.resubscribe sdk have_ force) := by
  unfold resubscribe
  split <;> exact ⟨rfl, rfl⟩

theorem bringUp_books (now : Time) : c.SameBooks (c.bringUp sdk addr source node now) := by
  have hstart := c.startPipeline_books sdk addr source node now
  unfold bringUp
  split
  · rename_i heq
    rwa [heq] at hstart
  · rename_i heq
    rw [heq] at hstart
    exact hstart.trans (resubscribe_books sdk _ _ _)

theorem refreshSecret_books : c.SameBooks (c.refreshSecret sdk node).2 := by
  unfold refreshSecret
  split <;> exact ⟨rfl, rfl⟩

theorem keepUp_books : c.SameBooks (c.keepUp sdk addr source node) := by
  have hnoted : c.SameBooks
      { c with health := { c.health with clashAPIAddr := addr, addrSource := source } } := ⟨rfl, rfl⟩
  exact (hnoted.trans (refreshSecret_books sdk _ node)).trans (resubscribe_books sdk _ _ _)

theorem leave_books : c.SameBooks (c.leave addr) := by
  unfold leave
  split
  · split
    · exact c.stop_books
    · exact .refl c
  · exact .refl c

theorem reach_books (now : Time) : c.SameBooks (c.reach sdk addr source node now) := by
  unfold reach
  dsimp only
  split
  · exact (c.leave_books addr).trans (bringUp_books sdk _ _ _ _ _)
  · exact (c.leave_books addr).trans (keepUp_books sdk _ _ _ _)

theorem applyConfig_cases (now : Time) :
    (∃ state detail, c.applyConfig sdk cfg node now =
      (c.install sdk cfg now).stop.setStatus sdk state detail "" .none now) ∨
    ∃ detail addr source, c.applyConfig sdk cfg node now =
      ((c.install sdk cfg now).noteDiscovery sdk detail now).reach sdk addr source node now := by
  unfold applyConfig
  dsimp only
  split
  · exact .inl ⟨_, _, rfl⟩
  · split
    · exact .inr ⟨_, _, _, rfl⟩
    · split
      · split
        · exact .inr ⟨_, _, _, rfl⟩
        · exact .inl ⟨_, _, rfl⟩
      · exact .inl ⟨_, _, rfl⟩

/-- A config replaces the policy and the skew, and leaves the bookkeeping of connections and
the lines shipped alone. -/
theorem applyConfig_books (now : Time) :
    (c.install sdk cfg now).SameBooks (c.applyConfig sdk cfg node now) := by
  obtain ⟨state, detail, heq⟩ | ⟨detail, addr, source, heq⟩ := applyConfig_cases sdk c cfg node now
  · rw [heq]
    exact (stop_books _).trans ⟨rfl, rfl⟩
  · rw [heq]
    have hnoted : (c.install sdk cfg now).SameBooks
        ((c.install sdk cfg now).noteDiscovery sdk detail now) := ⟨rfl, rfl⟩
    exact hnoted.trans (reach_books sdk _ _ _ _ _)

/-! ### The pipeline after a config -/

/-- A running pipeline is subscribed. -/
def Subscribed : Prop := c.pipeline.isSome = true → c.streamCancel = true

/-- After a config there is no pipeline, the one there was, or a new one against another address.
One that is running is subscribed, at the level of the policy. -/
inductive Configured (c c' : Collector) : Prop
  | stopped (h : c'.pipeline = none)
  | kept {p p' : Pipeline} (hp : c.pipeline = some p) (hp' : c'.pipeline = some p')
      (haddr : p'.addr = p.addr) (hasm : p'.asm = p.asm)
      (hlevel : c.streamCancel = true →
        c'.streamCancel = true ∧ c'.haveLevel = c'.policy.subscribeLevel sdk)
  | starts {p' : Pipeline} {opts : Options} (hp' : c'.pipeline = some p')
      (hasm : p'.asm = .new opts) (hother : ∀ p, c.pipeline = some p → p.addr ≠ p'.addr)
      (hopen : c'.streamCancel = true)

/-- A subscription that is reopened, or is at the policy's level already, is at that level. -/
theorem resubscribe_level (hup : c.pipeline.isSome) {have_ : String}
    (hhave : have_ = c.haveLevel ∧ c.streamCancel ∨ have_ = "") (force : Bool) :
    (c.resubscribe sdk have_ force).streamCancel ∧
      (c.resubscribe sdk have_ force).haveLevel = c.policy.subscribeLevel sdk := by
  unfold resubscribe
  split
  · rename_i hsame
    rcases hhave with ⟨hhave, hopen⟩ | hhave
    · exact ⟨hopen, hhave ▸ hsame.1⟩
    · exact absurd (hsame.1.symm.trans hhave) (PolicySet.subscribeLevel_ne sdk c.policy)
  · simp [restartStream, hup]

theorem resubscribe_pipeline (have_ : String) (force : Bool) :
    (c.resubscribe sdk have_ force).pipeline = c.pipeline := by
  unfold resubscribe
  split <;> rfl

theorem keepUp_kept {c : Collector} (hp : c.pipeline = some p) (addr : String)
    (source : AddrSource) (node : NodeView) :
    let c' := c.keepUp sdk addr source node
    ∃ p', c'.pipeline = some p' ∧ p'.addr = p.addr ∧ p'.asm = p.asm ∧
      (c.streamCancel = true →
        c'.streamCancel = true ∧ c'.haveLevel = c'.policy.subscribeLevel sdk) := by
  have hsecret (c : Collector) {p : Pipeline} (hp : c.pipeline = some p) :
      ∃ p', (c.refreshSecret sdk node).2.pipeline = some p' ∧ p'.addr = p.addr ∧ p'.asm = p.asm ∧
        (c.refreshSecret sdk node).2.streamCancel = c.streamCancel := by
    unfold refreshSecret
    split
    · exact ⟨p, hp, rfl, rfl, rfl⟩
    · exact ⟨_, congrArg (Option.map _) hp, rfl, rfl, rfl⟩
  obtain ⟨p', hp', haddr, hasm, hopen⟩ := hsecret
    { c with health := { c.health with clashAPIAddr := addr, addrSource := source } } hp
  refine ⟨p', (resubscribe_pipeline sdk _ _ _).trans hp', haddr, hasm, fun hsub => ?_⟩
  obtain ⟨hcancel, hlevel⟩ := resubscribe_level sdk _ (by rw [hp']; rfl) (.inl ⟨rfl, hopen.trans hsub⟩)
    (refreshSecret sdk { c with health := { c.health with
      clashAPIAddr := addr, addrSource := source } } node).1
  exact ⟨hcancel, hlevel.trans (by rw [keepUp, (resubscribe_books sdk _ _ _).policy])⟩

theorem bringUp_cases (hp : c.pipeline = none) (addr : String) (source : AddrSource)
    (node : NodeView) (now : Time) :
    let c' := c.bringUp sdk addr source node now
    c'.pipeline = none ∨ c'.streamCancel = true ∧
      ∃ p' opts, c'.pipeline = some p' ∧ p'.addr = addr ∧ p'.asm = .new opts := by
  unfold bringUp startPipeline
  cases node.secret with
  | error err => exact .inl hp
  | ok secret =>
    cases node.validateLoopbackAddr addr with
    | error err => exact .inl hp
    | ok _ =>
      exact .inr ⟨(resubscribe_level sdk _ rfl (.inr rfl) false).1, _, _,
        resubscribe_pipeline sdk _ _ _, rfl, rfl⟩

theorem reach_configured (now : Time) :
    Configured sdk c (c.reach sdk addr source node now) := by
  unfold reach leave
  rcases hp : c.pipeline with - | p
  · simp only [hp]
    obtain hnone | ⟨hopen, p', opts, hp', -, hasm⟩ := bringUp_cases sdk c hp addr source node now
    · exact .stopped hnone
    · exact .starts hp' hasm (fun p hc => absurd (hp.symm.trans hc) (by simp)) hopen
  · by_cases haddr : p.addr = addr
    · simp only [hp, haddr, ne_eq, not_true_eq_false, if_false]
      obtain ⟨p', hp', haddr', hasm, hlevel⟩ := keepUp_kept sdk hp addr source node
      exact .kept hp hp' haddr' hasm hlevel
    · simp only [ne_eq, haddr, not_false_eq_true, if_true]
      obtain hnone | ⟨hopen, p', opts, hp', haddr', hasm⟩ :=
        bringUp_cases sdk c.stop rfl addr source node now
      · exact .stopped hnone
      · refine .starts hp' hasm (fun q hq => ?_) hopen
        cases hp.symm.trans hq
        rw [haddr']
        exact haddr

theorem applyConfig_configured (now : Time) :
    Configured sdk c (c.applyConfig sdk cfg node now) := by
  obtain ⟨state, detail, heq⟩ | ⟨detail, addr, source, heq⟩ := applyConfig_cases sdk c cfg node now
  · exact .stopped (by rw [heq]; rfl)
  · -- What is recorded first leaves the pipeline but for its budget.
    rw [heq]
    cases reach_configured sdk ((c.install sdk cfg now).noteDiscovery sdk detail now) addr source
      node now with
    | stopped h => exact .stopped h
    | kept hp₁ hp' haddr hasm hlevel =>
      obtain ⟨p, hp, rfl⟩ := Option.map_eq_some_iff.mp hp₁
      exact .kept hp hp' haddr hasm hlevel
    | starts hp' hasm hother hopen =>
      exact .starts hp' hasm (fun p hp => (hother _ (congrArg (Option.map _) hp) :)) hopen

end Collector

/-! ### Runs -/

/-- What happens to a collector, each with the clock's reading. -/
inductive Input where
  /-- An entry of the log stream. -/
  | entry (line : Option Line)
  /-- A pass of `driveAssembler`; the server may take the raw lines. -/
  | tick (taken : Bool)
  /-- A poll of the connection table. -/
  | poll (answer : Except String Collector.ConnectionsSnapshot)
  /-- A subscription is accepted. -/
  | streamOpen (epoch : UInt64)
  /-- A subscription ends or is refused. -/
  | streamError (epoch : UInt64) (err : String)
  /-- A config from the server. -/
  | config (cfg : TraceAgentConfig) (node : NodeView)

/-- One step of the collector. -/
def Collector.step (sdk : Sdk) (c : Collector) (now : Clock) : Input → Collector
  | .entry line => c.onEntry sdk line now
  | .tick taken => c.tick sdk taken now
  | .poll answer => c.pollConnections sdk answer now
  | .streamOpen epoch => c.noteStreamOpen sdk epoch now
  | .streamError epoch err => c.noteStreamError sdk epoch err now
  | .config cfg node => c.applyConfig sdk cfg node now

/-- The input is a hook of the log subscription. -/
def Input.hook : Input → Bool
  | .streamOpen _ | .streamError .. => true
  | _ => false

theorem Collector.step_hook (sdk : Sdk) (c : Collector) (now : Clock) {input : Input}
    (h : input.hook) :
    let c' := c.step sdk now input
    c' = { c with health := c'.health, observationGaps := c'.observationGaps } := by
  cases input with
  | streamOpen epoch =>
    unfold step noteStreamOpen
    dsimp only
    split <;> rfl
  | streamError epoch err =>
    unfold step noteStreamError
    dsimp only
    split <;> rfl
  | _ => exact absurd h Bool.false_ne_true

/-- A run: inputs at their times. -/
def Collector.run (sdk : Sdk) (c : Collector) (inputs : List (Clock × Input)) : Collector :=
  inputs.foldl (fun c i => c.step sdk i.1 i.2) c

/-- A condition on the steps of a run, each in the state it finds. -/
def Collector.Along (sdk : Sdk) (P : Collector → Clock → Input → Bool) :
    Collector → List (Clock × Input) → Prop
  | _, [] => True
  | c, i :: inputs => P c i.1 i.2 = true ∧ Along sdk P (c.step sdk i.1 i.2) inputs

instance Collector.decidableAlong (sdk : Sdk) (P : Collector → Clock → Input → Bool) :
    ∀ (c : Collector) (inputs : List (Clock × Input)), Decidable (Along sdk P c inputs)
  | _, [] => .isTrue trivial
  | c, i :: inputs =>
    haveI := decidableAlong sdk P (c.step sdk i.1 i.2) inputs
    inferInstanceAs (Decidable (_ ∧ _))

theorem Collector.run_append (sdk : Sdk) (c : Collector) (pre post : List (Clock × Input)) :
    c.run sdk (pre ++ post) = (c.run sdk pre).run sdk post := foldl_append

variable {P : Collector → Clock → Input → Bool}

theorem Collector.along_append {sdk : Sdk} {c : Collector} {pre post : List (Clock × Input)} :
    Along sdk P c (pre ++ post) ↔ Along sdk P c pre ∧ Along sdk P (c.run sdk pre) post := by
  induction pre generalizing c with
  | nil => simp [Along, run]
  | cons i pre ih =>
    simp only [cons_append, Along, ih, and_assoc]
    rfl

/-- The lines a step adds to the shipper: only an entry adds any. -/
def Collector.newLines (sdk : Sdk) (c : Collector) (now : Clock) : Input → List TraceLine
  | .entry entry => c.entryLines sdk entry now
  | _ => []

theorem Collector.step_lines (sdk : Sdk) (c : Collector) (now : Clock) (input : Input) :
    (c.step sdk now input).lines = c.lines ++ c.newLines sdk now input := by
  cases input with
  | entry entry => exact onEntry_lines sdk c entry now
  | tick taken => exact (tick_lines sdk c taken now).trans (append_nil _).symm
  | poll answer => exact (poll_lines sdk c answer now).trans (append_nil _).symm
  | streamOpen | streamError =>
    rw [step_hook sdk c now rfl]
    exact (append_nil _).symm
  | config cfg node =>
    exact (c.applyConfig_books sdk cfg node now).lines.trans (append_nil _).symm

/-- No step but a config changes the policy, the expiry of a running pipeline's tick apart. -/
theorem Collector.step_policy {sdk : Sdk} {c : Collector} {now : Clock} {input : Input}
    (h : ∀ cfg node, input ≠ .config cfg node) :
    ((c.step sdk now input).policy = c.policy ∧
      ∀ taken, input = .tick taken → c.pipeline.isSome = false) ∨
    ((∃ taken, input = .tick taken) ∧ c.pipeline.isSome ∧
      (c.step sdk now input).policy = (c.expireSessionsLocally sdk now).policy) := by
  cases input with
  | entry entry => exact .inl ⟨by rw [step, onEntry_eq], nofun⟩
  | tick taken =>
    rcases hp : c.pipeline with - | p
    · exact .inl ⟨by simp [step, tick, hp], fun _ _ => rfl⟩
    · exact .inr ⟨⟨taken, rfl⟩, rfl, by rw [step, tick_eq sdk hp]⟩
  | poll answer => exact .inl ⟨by rw [step, poll_eq], nofun⟩
  | streamOpen | streamError => exact .inl ⟨by rw [step_hook sdk c now rfl], nofun⟩
  | config cfg node => exact absurd rfl (h cfg node)

theorem Collector.step_sessions {sdk : Sdk} {c : Collector} {now : Clock} {input : Input}
    (h : ∀ cfg node, input ≠ .config cfg node) (hn : c.policy.Normal sdk) :
    (c.step sdk now input).policy.Normal sdk ∧
      ∀ sess ∈ (c.step sdk now input).policy.sessions, sess ∈ c.policy.sessions := by
  rcases step_policy h with ⟨heq, -⟩ | ⟨-, -, heq⟩
  · rw [heq]
    exact ⟨hn, fun _ hs => hs⟩
  · rw [heq]
    exact expire_sessions hn now

/-- The lines of a run are good exactly when every step meets a condition, if each step's are
in the states of an invariant. -/
theorem Collector.run_lines_iff {sdk : Sdk} (Inv : Collector → Prop) (Ok : Input → Prop)
    {Good : TraceLine → Prop}
    (hinv : ∀ (c : Collector) now input, Inv c → Ok input → Inv (c.step sdk now input))
    (hstep : ∀ (c : Collector) now input, Inv c →
      ((∀ line ∈ c.newLines sdk now input, Good line) ↔ P c now input))
    {c : Collector} (hc : Inv c) {inputs : List (Clock × Input)} (hok : ∀ i ∈ inputs, Ok i.2) :
    ∃ new, (c.run sdk inputs).lines = c.lines ++ new ∧
      ((∀ line ∈ new, Good line) ↔ Along sdk P c inputs) := by
  induction inputs generalizing c with
  | nil => exact ⟨[], (append_nil _).symm, by simp [Along]⟩
  | cons i inputs ih =>
    obtain ⟨new, hnew, hiff⟩ := ih (hinv c i.1 i.2 hc (hok i mem_cons_self))
      fun j hj => hok j (mem_cons_of_mem _ hj)
    refine ⟨c.newLines sdk i.1 i.2 ++ new, ?_, ?_⟩
    · rw [← append_assoc, ← step_lines]
      exact hnew
    · rw [forall_mem_append, hstep c i.1 i.2 hc, hiff]
      rfl

end LatticeAgent.Trace
