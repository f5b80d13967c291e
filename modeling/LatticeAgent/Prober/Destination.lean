import LatticeAgent.Lib.CutProg
import LatticeAgent.Prober.Scrub

/-! # Where a check may go

`resolveTarget`, `dialJudged` and the tcp and http checks as programs whose every answer from the
network is the choice of the outside world (`Answer`): a resolver may answer the same name
differently each time, a dial may fail or not, and an http client may dial any address any number
of times before it answers. The log of a run is what it looked up, what it dialed and where it
sent an echo. -/

namespace LatticeAgent.Prober

open CutProg CutProg.Prog

/-! ### The outside world -/

/-- What a run does to the network. -/
inductive Event where
  | lookup (name : Bytes) (found : Except Err (List Addr))
  | dial (network address : Bytes)
  | echo (ip : Bytes)

/-- `http.Response`: the expiry dates of the server's certificates, and the body or the error of
reading it. -/
structure Response where
  status : Nat
  contentType : Bytes
  contentLength : Int
  body : Except Err Bytes
  certificates : Option (List Time)

/-- What an http client does next: it dials an address through its transport, or it is done. -/
inductive ClientMove where
  | dial (address : Bytes)
  | done (result : Except Err Response)
deriving Inhabited

/-- What the outside world decides at one step; each step reads the field of its own call. -/
structure Answer where
  lookup : Except Err (List Addr)
  dial : Option Err
  /-- `ctx.Err()` -/
  ctxErr : Option Err
  client : ClientMove
  write : Option Err
  read : Except Err Bytes
  close : Option Err
  /-- a TLS handshake, with the expiry dates of the peer's certificates -/
  handshake : Except Err (List Time)
  /-- `rand.Read` -/
  random : Except Err (Nat → UInt8)
  now : Time
  listen : Option Err
  setReadDeadline : Option Err
  /-- `ReadFrom` of the echo socket: a datagram and the IP address of its sender -/
  readFrom : Except Err (Bytes × Bytes)
deriving Inhabited

/-- A run of the prober: its state is its log. -/
abbrev Run := Prog Answer (List Event) Err

/-- A connection. -/
structure Conn where
  network : Bytes
  address : Bytes

/-- `resolver.LookupNetIP`. -/
def lookupNetIP (name : Bytes) : Run (List Addr) :=
  step fun answer log => (answer.lookup, log ++ [.lookup name answer.lookup])

/-- `p.dial`. -/
def dial (network address : Bytes) : Run Conn :=
  step fun answer log =>
    ((answer.dial.map Except.error).getD (.ok { network, address }), log ++ [.dial network address])

/-- A call that reaches no other host than a connection's. -/
def ask {α : Type} (call : Answer → Except Err α) : Run α :=
  step fun answer log => (call answer, log)

def ctxErr : Run (Option Err) := ask fun answer => .ok answer.ctxErr

/-! ### Addresses of a target -/

variable (pkg : Packages)

/-- `strings.TrimSuffix(strings.TrimPrefix(host, "["), "]")`. -/
def trimBrackets (host : Bytes) : Bytes :=
  let host := if utf8 "[" <+: host then host.drop 1 else host
  if utf8 "]" <:+ host then host.dropLast else host

def asciiHost (host : Bytes) : Except Err Bytes :=
  if host.any (0x80 ≤ ·) then
    match pkg.toASCII host with
    | some ascii => .ok ascii
    | none => .error (.new (utf8 "target host " ++ pkg.quote host ++ utf8 " is not a valid name"))
  else .ok host

/-- The refusal of an address, for a literal or for a name. -/
def refusal (host : Bytes) (literal : Bool) (addr : Addr) : Err :=
  if literal then
    .refused (utf8 "destination refused: " ++ pkg.addrString addr ++
      utf8 " is not a public address")
  else
    .refused (utf8 "destination refused: " ++ host ++ utf8 " resolves to " ++
      pkg.addrString addr ++ utf8 ", which is not a public address")

/-- The addresses of a host: a literal's own, or those of one lookup. -/
def lookupTarget (host : Bytes) : Run (List Addr) :=
  match pkg.parseAddr host with
  | some addr => pure [addr]
  | none => do
    let name ← lift (asciiHost pkg host)
    let found ← lookupNetIP name
    if found = [] then fail (.new (utf8 "lookup " ++ host ++ utf8 ": no addresses"))
    else pure found

def resolveTarget (host : Bytes) (nodeTarget : Bool) : Run (List Addr) := do
  let host := trimBrackets host
  let addrs := (← lookupTarget pkg host).map Addr.unmap
  if nodeTarget then pure addrs
  else
    match addrs.find? pkg.monitorDestinationRefused with
    | some addr => fail (refusal pkg host (pkg.parseAddr host).isSome addr)
    | none => pure addrs

/-- The loop of `dialJudged`, with the first error so far. -/
def dialNext (network port : Bytes) : List Addr → Option Err → Run Conn
  | [], firstErr => fail (firstErr.getD (.new (utf8 "no address to dial")))
  | addr :: addrs, firstErr => do
    match ← attempt (dial network (joinHostPort (pkg.addrString addr) port)) with
    | .ok conn => pure conn
    | .error err =>
      let firstErr := firstErr.getD err
      if (← ctxErr).isSome then fail firstErr else dialNext network port addrs (some firstErr)

def dialJudged (network : Bytes) (addrs : List Addr) (port : Bytes) : Run Conn :=
  dialNext pkg network port addrs none

def splitHostPort (target : Bytes) : Except Err (Bytes × Bytes) := do
  let quoted := utf8 "target " ++ pkg.quote target
  let (host, port) ← (pkg.splitHostPort target).mapError fun _ =>
    Err.new (quoted ++ utf8 " is not host:port")
  if host = [] then throw (.new (quoted ++ utf8 " has no host"))
  if (pkg.parseUint16 port).isSome then return (host, port)
  match pkg.lookupPort port with
  | none => throw (.new (quoted ++ utf8 " has no usable port"))
  | some n => return (host, itoa n)

def probeTCP (m : Monitor) : Run Unit := do
  let (host, port) ← lift (splitHostPort pkg m.target)
  let addrs ← resolveTarget pkg host (m.targetNode ≠ [])
  let _ ← dialJudged pkg (utf8 "tcp") addrs port
  ask fun answer => (answer.close.map Except.error).getD (.ok ())

/-- `http.Header.Set`. -/
def setHeader (header : List Header) (name value : Bytes) : List Header :=
  header.filter (·.name ≠ name) ++ [⟨name, value⟩]

def requestHeader (m : Monitor) (scheme : Bytes) : Except Err (List Header) := do
  if pkg.monitorHasSecrets m then
    let origin := pkg.monitorOrigin m.target
    if scheme ≠ utf8 "https" ∨ m.secretsOrigin = [] ∨ origin ≠ some m.secretsOrigin then
      throw (.refused (utf8 "destination refused: secret headers go only over https to the origin they were saved for; nothing was sent"))
  m.headers.foldlM (fun header h => do
    let name := pkg.canonicalMonitorHeaderName h.name
    match pkg.validateMonitorHeader name h.value with
    | some err => throw (.new (utf8 "header " ++ name ++ utf8 " cannot be sent: " ++ err))
    | none => return setHeader header name h.value) []

/-- `httpTransport`: how the transport of a client connects. -/
def httpTransport (host : Bytes) (addrs : List Addr) (address : Bytes) : Run Conn := do
  let (dialHost, port) ← lift (pkg.splitHostPort address)
  if !pkg.equalFold dialHost host then
    fail (.refused (utf8 "destination refused: a request left for " ++ dialHost ++
      utf8 ", not the target"))
  else dialJudged pkg (utf8 "tcp") addrs port

/-- `client.Do`: the client connects through its transport as it likes and then answers; no
redirect is followed, so that answer is to the request. -/
def clientDo (transport : Bytes → Run Conn) : Run Response :=
  loop (fun _ => do
    match ← ask fun answer => .ok answer.client with
    | .dial address =>
      let _ ← attempt (transport address)
      pure (.inl ())
    | .done result => return .inr (← lift result)) ()

def probeHTTP (m : Monitor) : Run Unit := do
  match pkg.parse (pkg.trimSpace m.target) with
  | none => fail (.new (utf8 "target is not a valid URL"))
  | some u => do
    let scheme := pkg.toLower u.scheme
    if (scheme ≠ utf8 "http" ∧ scheme ≠ utf8 "https") ∨ pkg.hostname u = [] then
      fail (.new (utf8 "target must be an http or https URL with a host"))
    else do
      let (expect, expectText) ← lift ((pkg.parseMonitorStatusSet m.expectStatus).mapError
        fun err => Err.new (utf8 "expect_status: " ++ err))
      let _ ← lift (requestHeader pkg m scheme)
      let host ← lift (asciiHost pkg (pkg.hostname u))
      let addrs ← resolveTarget pkg host false
      if (pkg.newRequest (pkg.string u)).isSome then
        fail (.new (utf8 "target is not a valid request URL"))
      else do
        match ← attempt (clientDo (httpTransport pkg host addrs)) with
        | .error err =>
          match err.destination with
          | some msg => fail (.refused msg)
          | none => fail (.new (redactHTTPError pkg.toUrlLib err m))
        | .ok resp =>
          if expect resp.status then pure ()
          else fail (.new (utf8 "http status " ++ itoa resp.status ++ utf8 ", expected " ++
            expectText))

end LatticeAgent.Prober
