import LatticeAgent.Prober.Dns

/-! # The icmp check, and a run of any kind

`runEchoes` sends the echoes on their schedule and reads replies in one loop; its clock, its socket
and the end of its context are the outside world's. `probe` is one run of a monitor. -/

namespace LatticeAgent.Prober

open CutProg CutProg.Prog

variable (pkg : Packages)

/-- The fields of `prober` that a run of echoes reads. -/
structure Config where
  spacing : Duration
  echoWait : Duration := 0

def defaultTimeout : Duration := 5 * second

def monitorTimeout (m : Monitor) : Duration :=
  if m.timeoutSec ≤ 0 then defaultTimeout else int64 (m.timeoutSec * second)

/-! ### Echoes -/

def icmpRandomLen : Nat := 16

def icmpReadBuffer : Nat := 1500

/-- The fixed half of a payload. -/
def icmpMarker : Bytes := utf8 "lattice-echo-v1" ++ [0]

structure Echo where
  payload : Bytes
  sentAt : Time := 0
  sent : Bool := false
  replied : Bool := false
  rtt : Duration := 0
deriving DecidableEq, Repr

def icmpPackets (m : Monitor) : Nat := (min (pkg.monitorPackets m) pkg.monitorPacketsMax).toNat

def peerAddr (ip : Bytes) : Option Addr := (Addr.fromSlice ip).map Addr.unmap

/-- The loop of `matchReply`: the first echo that is sent, not yet answered and has this payload,
if it is still inside its wait. -/
def answerEcho (data : Bytes) (recvAt : Time) (timeout : Duration) : List Echo → Option (List Echo)
  | [] => none
  | e :: echoes =>
    if !e.sent || e.replied || data ≠ e.payload then
      (answerEcho data recvAt timeout echoes).map (e :: ·)
    else
      let rtt := recvAt.sub e.sentAt
      if timeout < rtt then none else some ({ e with replied := true, rtt } :: echoes)

/-- The echoes once a reply has marked one of them. -/
def matchReply (b peer : Bytes) (target : Addr) (echoes : List Echo) (recvAt : Time)
    (timeout : Duration) : Option (List Echo) :=
  if peerAddr peer ≠ some target then none
  else (pkg.parseEchoReply b).bind fun data => answerEcho data recvAt timeout echoes

def maxReadErrors : Nat := 3

/-- The variables of `runEchoes`. -/
structure EchoRun where
  echoes : List Echo
  planned : Nat
  final : Time := 0
  runErr : Option Err := none
  next : Nat := 0
  sent : Nat := 0
  replied : Nat := 0
  readErrs : Nat := 0

def timeNow : Run Time := ask fun answer => .ok answer.now

/-- `conn.WriteTo` of the echo socket. -/
def writeTo (ip _wire : Bytes) : Run Unit :=
  step fun answer log => ((answer.write.map Except.error).getD (.ok ()), log ++ [.echo ip])

/-- `conn.ReadFrom` into a buffer of `n` bytes. -/
def readFrom (n : Nat) : Run (Bytes × Bytes) :=
  ask fun answer => answer.readFrom.map fun (b, peer) => (b.take n, peer)

/-- `conn.SetReadDeadline`. -/
def setReadDeadline (_deadline : Time) : Run (Option Err) :=
  ask fun answer => .ok answer.setReadDeadline

/-- The next echo is sent; one that the kernel will not send ends the sending. -/
def sendEcho (target : Addr) (timeout : Duration) (st : EchoRun) (e : Echo) : Run EchoRun := do
  match pkg.marshalEcho (pkg.getpid % 0x10000) st.next e.payload with
  | .error err =>
    pure { st with runErr := some (.new (utf8 "send: " ++ err.text)), planned := st.next }
  | .ok wire => do
    let sentAt ← timeNow
    match ← attempt (writeTo target.asSlice wire) with
    | .error err =>
      pure { st with
        echoes := st.echoes.set st.next { e with sentAt }
        runErr := some (.new (utf8 "send: " ++ err.text)), planned := st.next }
    | .ok _ =>
      pure { st with
        echoes := st.echoes.set st.next { e with sentAt, sent := true }
        sent := st.sent + 1, final := sentAt + timeout, next := st.next + 1 }

/-- The end of a run whose socket does not read. -/
def EchoRun.failed (st : EchoRun) (err : Err) : EchoRun ⊕ (List Echo × Option Err) :=
  .inr (st.echoes, some (.new (utf8 "read: " ++ err.text)))

/-- One read of the socket: the run goes on, or the error that ends it. -/
def readEcho (target : Addr) (timeout : Duration) (deadline : Time) (st : EchoRun) :
    Run (EchoRun ⊕ (List Echo × Option Err)) := do
  match ← setReadDeadline deadline with
  | some err => pure (st.failed err)
  | none => do
    let read ← attempt (readFrom icmpReadBuffer)
    let recvAt ← timeNow
    match read with
    | .error err =>
      if err.readDeadline then pure (.inl { st with readErrs := 0 })
      else
        let readErrs := st.readErrs + 1
        if maxReadErrors ≤ readErrs || err.closed then pure (st.failed err)
        else if (← ctxErr).isSome then pure (st.failed err)
        else pure (.inl { st with readErrs })
    | .ok (b, peer) =>
      match matchReply pkg b peer target st.echoes recvAt timeout with
      | some echoes => pure (.inl { st with echoes, readErrs := 0, replied := st.replied + 1 })
      | none => pure (.inl { st with readErrs := 0 })

/-- When the next echo is due. -/
def EchoRun.due (st : EchoRun) (cfg : Config) (start : Time) : Time := start + st.next * cfg.spacing

/-- The next echo, once it is due. -/
def EchoRun.dueEcho (st : EchoRun) (cfg : Config) (start now : Time) : Option Echo :=
  if st.next < st.planned ∧ st.due cfg start ≤ now then st.echoes[st.next]? else none

/-- One round of the loop of `runEchoes`. -/
def echoRound (cfg : Config) (target : Addr) (timeout : Duration) (start : Time) (st : EchoRun) :
    Run (EchoRun ⊕ (List Echo × Option Err)) := do
  if (← ctxErr).isSome then pure (.inr (st.echoes, st.runErr))
  else do
    let now ← timeNow
    match st.dueEcho cfg start now with
    | some e => do
      let st ← sendEcho pkg target timeout st e
      pure (.inl st)
    | none =>
      if st.next = st.planned ∧ (st.replied = st.sent ∨ st.final ≤ now) then
        pure (.inr (st.echoes, st.runErr))
      else
        let deadline := if st.next < st.planned then st.due cfg start else st.final
        readEcho pkg target timeout deadline st

def runEchoes (cfg : Config) (target : Addr) (echoes : List Echo) (timeout : Duration) :
    Run (List Echo × Option Err) := do
  let start ← timeNow
  loop (echoRound pkg cfg target timeout start) { echoes, planned := echoes.length }

/-! ### The check -/

/-- The host of an icmp target. -/
def icmpHost (m : Monitor) : Bytes :=
  match pkg.splitHostPort m.target with
  | .ok (host, _) => host
  | .error _ => m.target

def icmpTarget (m : Monitor) : Run Addr := do
  let host := icmpHost pkg m
  if host = [] then fail (.new (utf8 "icmp target has no address"))
  else do
    let addrs ← resolveTarget pkg host (m.targetNode ≠ [])
    match addrs.find? Addr.is4 with
    | some addr => pure addr
    | none => fail (.new (utf8 "icmp target " ++ host ++ utf8 " has no IPv4 address"))

/-- An echo with a fresh payload. -/
def newEcho : Run Echo := do
  let random ← ask (·.random)
  pure { payload := icmpMarker ++ (List.range icmpRandomLen).map random }

/-- `n` fresh echoes. -/
def newEchoes : Nat → Run (List Echo)
  | 0 => pure []
  | n + 1 => do
    let e ← newEcho
    let echoes ← newEchoes n
    pure (e :: echoes)

def fillICMPResult (echoes : List Echo) (runErr : Option Err) : Result :=
  let sent := (echoes.filter (·.sent)).length
  let rtts := (echoes.filter fun e => e.sent && e.replied).map (·.rtt)
  let res : Result := { sent, rtts, lost := sent - rtts.length }
  if rtts ≠ [] then { res with success := true }
  else
    match runErr with
    | some err => { res with
        error := utf8 "icmp echo after " ++ itoa sent ++ utf8 " sent: " ++ err.text }
    | none => { res with error := utf8 "no reply to " ++ itoa sent ++ utf8 " icmp echoes" }

def probeICMP (cfg : Config) (m : Monitor) : Run Result := do
  let timeout := if 0 < cfg.echoWait then cfg.echoWait else monitorTimeout m
  match ← attempt (icmpTarget pkg m) with
  | .error err =>
    pure { reason := err.destination.map fun _ => .destinationRefused, error := err.text }
  | .ok target => do
    match ← ask fun answer => .ok answer.listen with
    | some err =>
      if err.refusedSocket then
        pure
          { reason := some .icmpNotPermitted
            error := utf8 "the kernel refuses unprivileged icmp echo sockets to this agent (net.ipv4.ping_group_range)" }
      else pure { error := utf8 "open icmp socket: " ++ err.text }
    | none => do
      match ← attempt (newEchoes (icmpPackets pkg m)) with
      | .error err => pure { error := utf8 "icmp payload: " ++ err.text }
      | .ok echoes => do
        let (echoes, runErr) ← runEchoes pkg cfg target echoes timeout
        pure (fillICMPResult echoes runErr)

/-- The result of a tcp or http check. -/
def checkResult (check : Run Unit) : Run Result := do
  match ← attempt check with
  | .ok _ => pure { success := true }
  | .error err =>
    match err.destination with
    | some msg => pure { reason := some .destinationRefused, error := msg }
    | none => pure { error := err.text }

/-- The result of a kind that this agent does not run. -/
def tooOld (text : Bytes) : Result where
  reason := some .agentTooOld
  error := utf8 "this agent does not run " ++ pkg.quote text ++ utf8 " checks"

/-- The run of a monitor's kind. -/
def probeKind (cfg : Config) (m : Monitor) : Run Result :=
  match m.type with
  | .tcp => checkResult (probeTCP pkg m)
  | .http => checkResult (probeHTTP pkg m)
  | .icmp => probeICMP pkg cfg m
  | .dns => probeDNS pkg m
  | .other text => pure (tooOld pkg text)

def probe (cfg : Config) (m : Monitor) : Run Result := do
  let res ← probeKind pkg cfg m
  pure { res with monitorID := m.id }

end LatticeAgent.Prober
