import LatticeAgent.Trace.Types

/-! # The control-plane witness

A process of its own that checks the control plane, pushes when it has been failing for long
enough and pushes again when it has recovered. Its whole memory is one document, written after
every check, so that a restart in the middle of an outage neither pushes twice nor forgets the
recovery.

The probes, the push and the two clocks enter as the outcome of a check (`Check`); the encoding
of the state, the parsing of URLs and the formatting of times are the parameter `Library`. -/

namespace LatticeAgent.ControlPlane

open Trace (Clock)

/-- The part of the witness document that a running witness reads. -/
structure Config where
  nodeName : String := ""
  healthURL : String := ""
  referenceURLs : List String := []
  barkLevel : String := ""
  intervalSeconds : Int := 0
  holdSeconds : Int := 0
  recoverSeconds : Int := 0
deriving DecidableEq, Repr

def defaultInterval : Duration := 30 * second
def defaultHold : Duration := 180 * second
def defaultRecover : Duration := 60 * second
def defaultBarkLevel : String := "critical"

def secondsOr (v : Int) (d : Duration) : Duration := if v ≤ 0 then d else int64 (v * second)

namespace Config

variable (c : Config)

def interval : Duration := secondsOr c.intervalSeconds defaultInterval
def hold : Duration := secondsOr c.holdSeconds defaultHold
def recover : Duration := secondsOr c.recoverSeconds defaultRecover
def level : String := if c.barkLevel = "" then defaultBarkLevel else c.barkLevel

/-- The longest silence between two checks that still continues a run. -/
def maxGap : Duration := max (int64 (3 * c.interval)) c.hold

end Config

inductive Phase where
  | starting | watching | failing | down | networkDown
deriving DecidableEq, Repr

inductive PushKind where
  | down | recovery
deriving DecidableEq, Repr

def stateVersion : Int := 1

/-- The witness's whole memory. A phase or a push kind that was never set is `none`. -/
structure State where
  version : Int := 0
  configSHA256 : String := ""
  startedAt : Time := 0
  phase : Option Phase := none
  healthURL : String := ""
  referenceCount : Nat := 0
  intervalSeconds : Int := 0
  holdSeconds : Int := 0
  lastCheckAt : Time := 0
  lastCheckOK : Bool := false
  lastCheckDetail : String := ""
  lastOKAt : Time := 0
  failingSince : Time := 0
  failingFor : Duration := 0
  consecutiveFailures : Nat := 0
  okSince : Time := 0
  okFor : Duration := 0
  consecutiveOK : Nat := 0
  networkDownSince : Time := 0
  alerted : Bool := false
  alertedAt : Time := 0
  downSince : Time := 0
  outageFor : Duration := 0
  lastPushAt : Time := 0
  lastPushKind : Option PushKind := none
  lastPushOK : Bool := false
  lastPushError : String := ""
  pushes : Nat := 0
deriving DecidableEq, Repr

/-- One check. `networkUp` is meaningful only when `ok` is false. -/
structure CheckResult where
  ok : Bool
  detail : String := ""
  networkUp : Bool := false
deriving DecidableEq, Repr

/-- A message the witness owes. -/
structure Push where
  kind : PushKind
  title : String
  body : String
  level : String
deriving DecidableEq, Repr

/-- What the witness takes from Go's libraries. -/
structure Library (Doc : Type) where
  /-- The host of a URL that parses and has one. -/
  urlHost : String → Option String
  /-- `t.UTC().Format("2006-01-02 15:04:05 UTC")`. -/
  clock : Time → String
  /-- `int(d.Seconds())`. -/
  seconds : Duration → Int
  /-- `int(d.Minutes())`. -/
  minutes : Duration → Int
  marshal : State → Doc
  unmarshal : Doc → Except String State
  unmarshal_marshal : ∀ st, unmarshal (marshal st) = .ok st

section Texts

variable {Doc : Type} (lib : Library Doc)

def hostOf (rawURL : String) : String := (lib.urlHost rawURL).getD rawURL

def orUnknown (s : String) : String := if s = "" then "no answer" else s

def roughDuration (d : Duration) : String :=
  if d < 60 * second then toString (lib.seconds d) ++ " s"
  else
    let m := lib.minutes d
    if m < 60 then toString m ++ " min"
    else toString (Int.tdiv m 60) ++ " h " ++ toString (Int.tmod m 60) ++ " min"

def downPush (cfg : Config) (s : State) : Push :=
  -- an HTTP answer other than 200 is not "unreachable": something on the path answers
  let answers := decide ("http ".toList <+: s.lastCheckDetail.toList)
  let title :=
    if answers then "Lattice control plane not ready" else "Lattice control plane unreachable"
  let failed := if answers then "has answered without reporting ready" else "has not answered"
  { kind := .down
    title
    body := "Seen from " ++ cfg.nodeName ++ ": " ++ hostOf lib cfg.healthURL ++ " " ++ failed ++
      " for about " ++ roughDuration lib s.failingFor ++ " (" ++ toString s.consecutiveFailures ++
      " checks; last: " ++ orUnknown s.lastCheckDetail ++ "; first failed check " ++
      lib.clock s.failingSince ++ " by this node's clock). This node's own network is up. " ++
      "Sent by the Lattice witness on " ++ cfg.nodeName ++
      " through its local Bark server, because Lattice itself cannot send anything now."
    level := cfg.level }

def recoveryPush (cfg : Config) (s : State) : Push :=
  -- `outageFor` runs from the first failure, `okFor` from the first answer, both until now
  let outage := max (int64 (s.outageFor - s.okFor)) 0
  { kind := .recovery
    title := "Lattice control plane ready again"
    body := "Seen from " ++ cfg.nodeName ++ ": " ++ hostOf lib cfg.healthURL ++
      " reports ready again after about " ++ roughDuration lib outage ++ " down (answering for " ++
      roughDuration lib s.okFor ++ ", since " ++ lib.clock s.okSince ++
      " by this node's clock). Sent by the Lattice witness on " ++ cfg.nodeName ++ "."
    level := "active" }

end Texts

/-! ### One check -/

/-- The time since the previous check and whether it breaks the runs. Within a process it is
taken from the monotonic clock, after a start from the saved wall time. -/
def sinceLastCheck (prev now : Time) (mono : Duration) (inProcess : Bool) (maxGap : Duration) :
    Duration × Bool :=
  if prev.isZero then (0, false)
  else
    let wall := now.sub prev
    if inProcess then (mono, decide (mono > maxGap) || decide (wall > maxGap))
    else (wall, decide (wall < 0) || decide (wall > maxGap))

namespace State

/-- What `observe` does before it looks at the outcome of the check. -/
def elapsed (s : State) (now : Time) (step : Duration) (gap : Bool) (res : CheckResult) : State :=
  let s := { s with lastCheckAt := now, lastCheckOK := res.ok, lastCheckDetail := res.detail }
  let s :=
    if gap then
      { s with
        failingSince := 0, failingFor := 0, consecutiveFailures := 0
        okSince := 0, okFor := 0, consecutiveOK := 0 }
    else
      { s with
        failingFor := if 0 < s.consecutiveFailures then int64 (s.failingFor + step) else s.failingFor
        okFor := if 0 < s.consecutiveOK then int64 (s.okFor + step) else s.okFor }
  if s.alerted && decide (0 < step) then { s with outageFor := int64 (s.outageFor + step) } else s

variable {Doc : Type} (lib : Library Doc)

/-- `observe`, where the control plane answered. -/
def answered (cfg : Config) (s : State) (now : Time) : State × Option Push :=
  let s := { s with
    lastOKAt := now, networkDownSince := 0
    failingSince := 0, failingFor := 0, consecutiveFailures := 0
    okSince := if s.consecutiveOK = 0 then now else s.okSince
    okFor := if s.consecutiveOK = 0 then 0 else s.okFor
    consecutiveOK := s.consecutiveOK + 1
    phase := some .watching }
  if s.alerted then
    let s := { s with phase := some .down }
    if 2 ≤ s.consecutiveOK ∧ cfg.recover ≤ s.okFor then (s, some (recoveryPush lib cfg s))
    else (s, none)
  else (s, none)

/-- `observe`, where nothing answered: the check is not counted and does not end the run. -/
def unreachable (s : State) (now : Time) : State :=
  { s with
    networkDownSince := if s.networkDownSince.isZero then now else s.networkDownSince
    phase := some .networkDown }

/-- `observe`, where the control plane failed and a reference answered. -/
def failed (cfg : Config) (s : State) (now : Time) : State × Option Push :=
  -- the first failure after this node's own network came back does not push on its own
  let backFromNetworkDown := !s.networkDownSince.isZero
  let s := { s with
    networkDownSince := 0
    failingSince := if s.consecutiveFailures = 0 then now else s.failingSince
    failingFor := if s.consecutiveFailures = 0 then 0 else s.failingFor
    consecutiveFailures := s.consecutiveFailures + 1 }
  if s.alerted then ({ s with phase := some .down }, none)
  else
    let s := { s with phase := some .failing }
    if 2 ≤ s.consecutiveFailures ∧ cfg.hold ≤ s.failingFor ∧ backFromNetworkDown = false then
      (s, some (downPush lib cfg s))
    else (s, none)

/-- Fold one check into the state; the push it now owes, if any. -/
def observe (cfg : Config) (s : State) (now : Time) (step : Duration) (gap : Bool)
    (res : CheckResult) : State × Option Push :=
  let s := s.elapsed now step gap res
  if res.ok then s.answered lib cfg now
  else
    let s := { s with okSince := 0, okFor := 0, consecutiveOK := 0 }
    if !res.networkUp then (s.unreachable now, none) else s.failed lib cfg now

/-- Record the outcome of a push; `errKind` is empty where it was delivered. -/
def pushed (s : State) (p : Push) (now : Time) (errKind : String) : State :=
  let s := { s with
    lastPushAt := now, lastPushKind := some p.kind, lastPushOK := decide (errKind = "")
    lastPushError := errKind }
  if errKind ≠ "" then s
  else
    let s := { s with pushes := s.pushes + 1 }
    match p.kind with
    | .down => { s with
        alerted := true, alertedAt := now, downSince := s.failingSince, outageFor := s.failingFor
        phase := some .down }
    | .recovery => { s with
        alerted := false, alertedAt := 0, downSince := 0, outageFor := 0
        phase := some .watching }

/-- Whether `adopt` finds a state of another version or config. -/
def foreign (s : State) (configSHA : String) : Bool :=
  decide (s.version ≠ stateVersion) || decide (s.configSHA256 ≠ configSHA)

/-- Prepare a loaded state for this process and config: a changed config restarts the runs but
keeps the alert. -/
def adopt (s : State) (cfg : Config) (configSHA : String) (now : Time) : State :=
  let s : State :=
    if s.foreign configSHA then
      { alerted := s.alerted, alertedAt := s.alertedAt, downSince := s.downSince
        outageFor := s.outageFor, lastPushAt := s.lastPushAt, lastPushKind := s.lastPushKind
        lastPushOK := s.lastPushOK, lastPushError := s.lastPushError, pushes := s.pushes }
    else s
  let s := { s with
    version := stateVersion
    configSHA256 := configSHA
    startedAt := now
    healthURL := cfg.healthURL
    referenceCount := cfg.referenceURLs.length
    intervalSeconds := lib.seconds cfg.interval
    holdSeconds := lib.seconds cfg.hold }
  let s := if s.lastCheckAt.isZero then { s with phase := some .starting } else s
  if s.alerted then { s with phase := some .down } else s

end State

/-! ### The process -/

/-- A time on the monotonic clock between two readings. -/
abbrev Elapsed := { d : Duration // 0 ≤ d ∧ d < 2 ^ 63 }

/-- What the world gives one `Tick`: the outcome of the probes, the wall clock, the time on the
monotonic clock since the process's previous check (since its start, for the first), the clock
once the push is through, and the outcome of the push; no outcome where the witness was stopped
meanwhile. -/
structure Check where
  res : CheckResult
  now : Clock
  elapsed : Elapsed
  pushedAt : Time := 0
  outcome : Option String := some ""

structure Witness where
  cfg : Config
  configSHA : String
  state : State
  lastMono : Duration := 0
  checked : Bool := false

namespace Witness

variable {Doc : Type} (lib : Library Doc)

def new (cfg : Config) (configSHA : String) (state : State) (now : Time) : Witness :=
  { cfg, configSHA, state := state.adopt lib cfg configSHA now }

/-- The time `Tick` gives to `observe`, and whether it breaks the runs. -/
def since (w : Witness) (c : Check) : Duration × Bool :=
  -- the monotonic clock shows its last reading and what has passed since
  let mono := w.lastMono + c.elapsed
  sinceLastCheck w.state.lastCheckAt c.now (mono - w.lastMono) w.checked w.cfg.maxGap

/-- `Tick`, with the push it sent. -/
def tick (w : Witness) (c : Check) : Witness × Option Push :=
  let (step, gap) := w.since c
  let (state, owed) := w.state.observe lib w.cfg c.now step gap c.res
  let w := { w with lastMono := w.lastMono + c.elapsed, checked := true, state }
  match owed, c.outcome with
  | some p, some errKind => ({ w with state := w.state.pushed p c.pushedAt errKind }, owed)
  | _, _ => (w, owed)

end Witness

/-- `LoadState`, and the fresh state `Start` takes where it fails. -/
def loadState {Doc : Type} (lib : Library Doc) (file : Option Doc) : State :=
  match file with
  | none => {}
  | some doc => (lib.unmarshal doc).toOption.getD {}

/-- A witness and its state file. -/
structure Host (Doc : Type) where
  witness : Witness
  file : Option Doc := none

namespace Host

variable {Doc : Type} (lib : Library Doc)

/-- `Start`: a process begins with what the state file holds. -/
def start (file : Option Doc) (cfg : Config) (configSHA : String) (now : Time) : Host Doc :=
  { witness := .new lib cfg configSHA (loadState lib file) now, file }

/-- A check, and the state saved after it (where the witness was stopped during the push, by
`Run` on its way out). -/
def check (h : Host Doc) (c : Check) : Host Doc × Option Push :=
  let (w, owed) := h.witness.tick lib c
  ({ witness := w, file := some (lib.marshal w.state) }, owed)

end Host

end LatticeAgent.ControlPlane
