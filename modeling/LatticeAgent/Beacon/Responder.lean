import LatticeAgent.Go
import LatticeAgent.Lib.Runs

/-! # The beacon responder

The responder of the measurement beacon: one UDP socket, bound to exactly the planned address and
port, and the state it reports. `Apply`, `Close` and the end of a receive loop are each one locked
section; a `Node` is the responder together with every socket its `listen` ever opened, and a list
of moves is any interleaving of the sections.

The wire format is the SDK's (`Wire`). What a section learns from outside (the clock, the outcome
of `listen` and of `SetTable`, when a socket last authenticated a request) is its argument
`Answers`. -/

namespace LatticeAgent.Beacon

/-- `netip.AddrPort` of an IPv4 address. -/
structure AddrPort where
  addr : List UInt8
  port : Nat
deriving DecidableEq, Repr

/-- `netip.AddrPort.String`. -/
def AddrPort.text (a : AddrPort) : String :=
  String.intercalate "." (a.addr.map fun b => toString b.toNat) ++ ":" ++ toString a.port

/-- What the responder takes from the SDK's package `beacon`. -/
structure Wire where
  /-- `wire.ParseIPv4`. -/
  parseIPv4 : String → Except String (List UInt8)
  /-- `wire.ValidListenPort`. -/
  validListenPort : Int → Bool
  /-- The text of `wire.ErrPort`. -/
  errPort : String
  /-- `wire.KeyLen`. -/
  keyLen : Nat

/-- `model.BeaconTableKey`. -/
structure BeaconTableKey where
  sourceID : Nat
  epoch : Nat
  retired : Bool := false
  key : Bytes := []
deriving DecidableEq, Repr

/-- `model.BeaconResponderConfig`. -/
structure BeaconResponderConfig where
  bind : String
  port : Int
  table : List BeaconTableKey := []
deriving DecidableEq, Repr

/-- The `model.BeaconAgent…` states a responder sets. -/
inductive AgentState where
  | off | bindFailed | circuitOpen | listening
deriving DecidableEq, Repr

inductive StopReason where
  | closed | breaker | readError | panic
deriving DecidableEq, Repr

def bindRetryInterval : Duration := 60 * second
def maxErrorLen : Nat := 200
def breakerWindowSeconds : Nat := 60
def breakerCooldown : Duration := 300 * second

/-- `Responder`. `addr` is `none` for the zero `netip.AddrPort`; `cur` is the place of the current
socket among all that were opened. -/
structure Responder where
  noBeacon : Bool := false
  closed : Bool := false
  state : AgentState := .off
  addr : Option AddrPort := none
  errText : String := ""
  epoch : Nat := 0
  sources : Nat := 0
  lastAuth : Time := 0
  lastBind : Time := 0
  circuitUntil : Time := 0
  cur : Option Nat := none
deriving DecidableEq, Repr

/-- A socket that `listen` opened: whether it is still open, how often its `quit` channel was
closed, and whether a receive loop was started on it. -/
structure Socket where
  addr : AddrPort
  isOpen : Bool := true
  quits : Nat := 0
  serves : Bool := false
deriving DecidableEq, Repr

/-- The responder and the sockets of its host. `listens` has the address of every call of
`listen`. -/
structure Node where
  resp : Responder := {}
  sockets : List Socket := []
  listens : List AddrPort := []
deriving DecidableEq, Repr

/-- What one locked section learns from outside. -/
structure Answers where
  now : Time := 0
  /-- The error of `listen`, if it fails. -/
  listen : Option String := none
  /-- The error of `SetTable`, if it fails. -/
  setTable : Option String := none
  /-- `LastAuthenticated` of the core of a socket. -/
  lastAuthenticated : Nat → Time := fun _ => 0
  /-- The hot seconds of a breaker that opened. -/
  hotSeconds : Nat := 0

/-! ### Errors -/

/-- The longest beginning of a text within so many bytes. -/
def cutBytes : Nat → List Char → List Char
  | _, [] => []
  | n, c :: cs => if c.utf8Size ≤ n then c :: cutBytes (n - c.utf8Size) cs else []

/-- Bounds an error to `maxErrorLen` bytes on a rune boundary. -/
def truncateError (s : String) : String :=
  String.ofList (cutBytes maxErrorLen (trimSpace s).toList)

def bindError (addr : AddrPort) (err : String) : String := "bind udp " ++ addr.text ++ ": " ++ err

def stopError (err : Option String) : String := err.getD "closed"

def bindAddr (wire : Wire) (cfg : BeaconResponderConfig) : Except String AddrPort :=
  match wire.parseIPv4 cfg.bind with
  | .error e => .error ("bind address refused: " ++ e)
  | .ok addr =>
    if wire.validListenPort cfg.port then .ok ⟨addr, cfg.port.toNat % 2 ^ 16⟩
    else .error ("bind port " ++ toString cfg.port ++ " refused: " ++ wire.errPort)

/-- One entry of the configured table, at index `i`. -/
def tableEntry (wire : Wire) (i : Nat) (k : BeaconTableKey) : Except String Unit := do
  refuse (k.sourceID == 0 || k.epoch == 0)
    ("responder table refused: entry " ++ toString i ++ " has a zero source id or epoch")
  refuse (k.key.length != wire.keyLen)
    ("responder table refused: entry " ++ toString i ++ " has a " ++ toString k.key.length ++
      "-byte key")

/-- The newest epoch of the configured table and the number of its sources. -/
def tableEntries (wire : Wire) (table : List BeaconTableKey) : Except String (Nat × Nat) := do
  let _ ← table.zipIdx.mapM fun ki => tableEntry wire ki.2 ki.1
  return (table.foldl (fun newest k => max newest k.epoch) 0,
    (table.map BeaconTableKey.sourceID).dedup.length)

/-! ### The locked sections -/

namespace Responder

/-- Only a listening responder has applied a table, so any other state reports no epoch and no
sources. -/
def setLocked (r : Responder) (state : AgentState) (addr : Option AddrPort) (errText : String) :
    Responder :=
  { r with
    state := state, addr := addr, errText := truncateError errText
    epoch := if state = .listening then r.epoch else 0
    sources := if state = .listening then r.sources else 0 }

/-- Keeps the later of two authentication times. -/
def noteAuth (r : Responder) (t : Time) : Responder := { r with lastAuth := max r.lastAuth t }

end Responder

/-- A socket and its `quit` channel are closed. -/
def Socket.shut (s : Socket) : Socket := { s with isOpen := false, quits := s.quits + 1 }

namespace Node

variable (n : Node)

/-- The responder's fields are set. -/
def set (state : AgentState) (addr : Option AddrPort) (errText : String) : Node :=
  { n with resp := n.resp.setLocked state addr errText }

/-- Closes the current socket, if any. -/
def closeLocked (e : Answers) : Node :=
  match n.resp.cur with
  | none => n
  | some sk =>
    { n with
      resp := { n.resp.noteAuth (e.lastAuthenticated sk) with cur := none }
      sockets := n.sockets.modify sk Socket.shut }

/-- The call of `listen`: a socket more if it succeeds. -/
def listenAt (addr : AddrPort) (e : Answers) : Node :=
  { n with
    resp := { n.resp with lastBind := e.now }
    listens := n.listens ++ [addr]
    sockets := if e.listen.isNone then n.sockets ++ [{ addr := addr }] else n.sockets }

/-- The last socket is closed before a loop served it. -/
def closeNew : Node :=
  { n with sockets := n.sockets.modify (n.sockets.length - 1) fun s => { s with isOpen := false } }

/-- The last socket is the current one and its loop starts. -/
def serveNew : Node :=
  { n with
    resp := { n.resp with cur := some (n.sockets.length - 1) }
    sockets := n.sockets.modify (n.sockets.length - 1) fun s => { s with serves := true } }

/-- The end of a successful `applyLocked`. -/
def listening (addr : AddrPort) (table : Nat × Nat) : Node :=
  let n := n.set .listening (some addr) ""
  { n with resp := { n.resp with epoch := table.1, sources := table.2 } }

/-- `applyLocked` with no current socket: open one, unless the breaker or the retry interval holds
it back. -/
def openLocked (addr : AddrPort) (table : Nat × Nat) (e : Answers) : Node :=
  if e.now < n.resp.circuitUntil then
    if n.resp.state ≠ .circuitOpen then n.set .circuitOpen (some addr) "circuit breaker open" else n
  else if n.resp.state = .bindFailed ∧ n.resp.addr = some addr ∧
      Time.sub e.now n.resp.lastBind < bindRetryInterval then n
  else
    match e.listen with
    | some err => (n.listenAt addr e).set .bindFailed (some addr) (bindError addr err)
    | none =>
      match e.setTable with
      | some err => (n.listenAt addr e).closeNew.set .off (some addr) err
      | none => (n.listenAt addr e).serveNew.listening addr table

/-- `applyLocked` with no socket at another address. -/
def serveTable (addr : AddrPort) (table : Nat × Nat) (e : Answers) : Node :=
  match n.resp.cur, e.setTable with
  | none, _ => n.openLocked addr table e
  | some _, some err => (n.closeLocked e).set .off (some addr) err
  | some _, none => n.listening addr table

/-- `applyLocked` for a configuration that was read. -/
def applyTable (addr : AddrPort) (table : Nat × Nat) (e : Answers) : Node :=
  if n.resp.cur.isSome ∧ n.resp.addr ≠ some addr then (n.closeLocked e).serveTable addr table e
  else n.serveTable addr table e

def applyLocked (wire : Wire) (cfg : Option BeaconResponderConfig) (e : Answers) : Node :=
  match cfg with
  | none => (n.closeLocked e).set .off none ""
  | some cfg =>
    match bindAddr wire cfg with
    | .error err => (n.closeLocked e).set .bindFailed none err
    | .ok addr =>
      match tableEntries wire cfg.table with
      | .error err => (n.closeLocked e).set .off (some addr) err
      | .ok table => n.applyTable addr table e

/-- `Apply` under the lock: the veto and a responder that stopped come first. -/
def apply (wire : Wire) (cfg : Option BeaconResponderConfig) (e : Answers) : Node :=
  if n.resp.noBeacon ∨ n.resp.closed then n else n.applyLocked wire cfg e

/-- No later `Apply` binds. -/
def stopped : Node := { n with resp := { n.resp with closed := true } }

/-- The locked section of `Close`. -/
def close (e : Answers) : Node :=
  if n.resp.noBeacon then n.stopped.closeLocked e else (n.stopped.closeLocked e).set .off none ""

/-- The text of a breaker that opened. -/
def breakerText (hotSeconds : Nat) : String :=
  "circuit breaker open: datagrams dropped in " ++ toString hotSeconds ++ " of the last " ++
    toString breakerWindowSeconds ++ " seconds; the socket stays closed for 5m0s"

/-- Records why a socket's loop ended. -/
def loopEnded (sk : Nat) (stop : StopReason) (err : Option String) (e : Answers) : Node :=
  let n : Node := if stop = .breaker then
      { n with resp := { n.resp with circuitUntil := e.now + breakerCooldown } }
    else n
  if n.resp.cur = some sk ∨ stop = .breaker ∧ n.resp.cur.isSome then
    let n := n.closeLocked e
    if stop = .breaker then n.set .circuitOpen n.resp.addr (breakerText e.hotSeconds)
    else
      ({ n with resp := { n.resp with lastBind := e.now } } : Node).set .bindFailed n.resp.addr
        ("socket failed: " ++ stopError err)
  else n

end Node

/-- The locked sections. A loop can end on any socket that was ever started. -/
inductive Move where
  | apply (cfg : Option BeaconResponderConfig) (e : Answers)
  | loopEnded (sk : Nat) (stop : StopReason) (err : Option String) (e : Answers)
  | close (e : Answers)

namespace Node

def step (wire : Wire) (n : Node) : Move → Node
  | .apply cfg e => n.apply wire cfg e
  | .loopEnded sk stop err e =>
    if (n.sockets[sk]?).any Socket.serves then n.loopEnded sk stop err e else n
  | .close e => n.close e

/-- A whole run of a responder made by `NewResponder`. -/
def run (wire : Wire) (noBeacon : Bool) (moves : List Move) : Node :=
  Runs.run (step wire) { resp := { noBeacon := noBeacon } } moves

end Node
end LatticeAgent.Beacon
