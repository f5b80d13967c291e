import LatticeAgent.Go

/-! # What a check reads

The parts of `model.Monitor` that the prober reads, its result, addresses and errors, and the
packages that the prober is written against. Strings are the bytes that Go's strings are. What a
function of another module computes is a parameter (`UrlLib`, `Packages`), what it may do to the
network is not: that is left to the outside world (`Prober.Destination`). -/

namespace LatticeAgent.Prober

/-- `model.MonitorType…`; any other text is a kind this agent does not run. -/
inductive MonitorType where
  | tcp
  | http
  | icmp
  | dns
  | other (text : Bytes)
deriving DecidableEq, Repr

/-- `model.MonitorHeader`. -/
structure Header where
  name : Bytes
  value : Bytes
deriving DecidableEq, Repr

/-- `model.Monitor`. -/
structure Monitor where
  id : Bytes := []
  type : MonitorType
  target : Bytes
  targetNode : Bytes := []
  timeoutSec : Int := 0
  expectStatus : Bytes := []
  headers : List Header := []
  secretsOrigin : Bytes := []
  dnsName : Bytes := []
  dnsType : Bytes := []
  dnsExpectRcode : Bytes := []
  dnsExpect : List Bytes := []
  packets : Int := 0
deriving DecidableEq, Repr

/-- `model.PathReason…`. -/
inductive Reason where
  | agentTooOld
  | destinationRefused
  | icmpNotPermitted
deriving DecidableEq, Repr

/-- `model.MonitorResult`; the round trip times of the echoes that came back are durations. -/
structure Result where
  monitorID : Bytes := []
  success : Bool := false
  reason : Option Reason := none
  error : Bytes := []
  sent : Nat := 0
  lost : Nat := 0
  rtts : List Duration := []
  dnsRcode : Bytes := []
  dnsAnswers : List Bytes := []
  certNotAfter : Option Time := none
deriving DecidableEq, Repr

/-! ### Addresses -/

/-- `netip.Addr`. -/
inductive Addr where
  | v4 (bits : BitVec 32)
  | v6 (bits : BitVec 128) (zone : Bytes)
deriving DecidableEq, Repr, Inhabited

namespace Addr

/-- `Addr.Unmap`: an IPv4-mapped IPv6 address becomes the IPv4 address, without its zone. -/
def unmap : Addr → Addr
  | .v4 bits => .v4 bits
  | .v6 bits zone => if bits >>> 32 = 0xffff#128 then .v4 (bits.truncate 32) else .v6 bits zone

/-- `Addr.Is4`. -/
def is4 : Addr → Bool
  | .v4 _ => true
  | .v6 _ _ => false

/-- The bytes of a number, the highest first. -/
def bigEndian {w : Nat} (n : Nat) (bits : BitVec w) : Bytes :=
  (List.range n).map fun i => .ofBitVec (bits.extractLsb' (8 * (n - 1 - i)) 8)

/-- `Addr.AsSlice`. -/
def asSlice : Addr → Bytes
  | .v4 bits => bigEndian 4 bits
  | .v6 bits _ => bigEndian 16 bits

/-- `netip.AddrFromSlice`. -/
def fromSlice (ip : Bytes) : Option Addr :=
  let number := ip.foldl (fun n b => n * 256 + b.toNat) 0
  if ip.length = 4 then some (.v4 (.ofNat 32 number))
  else if ip.length = 16 then some (.v6 (.ofNat 128 number) [])
  else none

end Addr

/-- `net.JoinHostPort`. -/
def joinHostPort (host port : Bytes) : Bytes :=
  if 58 ∈ host then utf8 "[" ++ host ++ utf8 "]:" ++ port else host ++ utf8 ":" ++ port

/-- `strconv.Itoa` of a number that is not negative. -/
def itoa (n : Nat) : Bytes := utf8 (toString n)

/-- `model.DNSFailure…`. -/
inductive DnsCode where
  | transport
  | rcode
  | noAnswer
  | mismatch
deriving DecidableEq, Repr, Inhabited

/-- `url.Error`: the operation, the URL and the text of the error inside. -/
structure UrlError where
  op : Bytes
  url : Bytes
  err : Bytes
deriving DecidableEq, Repr

/-- An `error`: its text, and what `errors.As` and `errors.Is` find in it. -/
structure Err where
  text : Bytes
  /-- the message of a `destinationError` -/
  destination : Option Bytes := none
  /-- a `dnsFailure` -/
  dnsFailure : Option (DnsCode × Bytes) := none
  url : Option UrlError := none
  /-- `context.Canceled` -/
  canceled : Bool := false
  /-- `context.DeadlineExceeded` -/
  deadline : Bool := false
  /-- a `net.Error` that is a timeout -/
  timeout : Bool := false
  /-- `net.ErrClosed` -/
  closed : Bool := false
  /-- `os.ErrDeadlineExceeded` -/
  readDeadline : Bool := false
  /-- `os.ErrPermission`, `EPROTONOSUPPORT` or `EAFNOSUPPORT` -/
  refusedSocket : Bool := false
  /-- `tls.CertificateVerificationError` -/
  certificate : Bool := false
  /-- an `x509.HostnameError` with its certificate: the host, and the names it covers -/
  hostname : Option (Bytes × List Bytes) := none
  /-- `x509.UnknownAuthorityError` -/
  unknownAuthority : Bool := false
deriving DecidableEq, Repr, Inhabited

namespace Err

/-- `errors.New`, and `fmt.Errorf` of a text. -/
def new (text : Bytes) : Err := { text }

/-- `&destinationError{msg}`. -/
def refused (msg : Bytes) : Err := { text := msg, destination := some msg }

end Err

/-! ### Packages -/

/-- `url.Userinfo`. -/
structure Userinfo where
  username : Bytes
  password : Option Bytes := none
deriving DecidableEq, Repr, Inhabited

/-- `url.URL`; `path` is everything else that its text has. -/
structure URL where
  scheme : Bytes := []
  user : Option Userinfo := none
  host : Bytes := []
  path : Bytes := []
  forceQuery : Bool := false
  rawQuery : Bytes := []
  fragment : Bytes := []
  rawFragment : Bytes := []
deriving DecidableEq, Repr, Inhabited

/-- `strings`, `strconv` and `net/url`. -/
structure UrlLib where
  trimSpace : Bytes → Bytes
  quote : Bytes → Bytes
  parse : Bytes → Option URL
  string : URL → Bytes
  userString : Userinfo → Bytes
  hostname : URL → Bytes
  queryUnescape : Bytes → Option Bytes
deriving Inhabited

/-- `model.DNSTransport…`. -/
inductive DnsTransport where
  | doh
  | dot
  | tcp
  | udp
deriving DecidableEq, Repr, Inhabited

/-- `model.DNSResolver`; `url` is what `URL()` returns. -/
structure DnsResolver where
  transport : DnsTransport
  host : Bytes
  port : Nat
  url : Bytes := []
deriving DecidableEq, Repr, Inhabited

/-- `model.DNSTypes`. -/
inductive DnsType where
  | a
  | aaaa
  | cname
  | txt
  | mx
  | ns
deriving DecidableEq, Repr, Inhabited

/-- `dnsmessage.Header`. -/
structure DnsHeader where
  response : Bool
  id : UInt16
  truncated : Bool
  rcode : Nat
deriving DecidableEq, Repr, Inhabited

/-- `dnsmessage.Question`. -/
structure DnsAsked where
  name : Bytes
  type : UInt16
  class' : UInt16
deriving DecidableEq, Repr

/-- The body of a resource, by the method that reads it. -/
inductive DnsBody where
  | a (bits : BitVec 32)
  | aaaa (bits : BitVec 128)
  | cname (name : Bytes)
  | ns (name : Bytes)
  | mx (name : Bytes)
  | txt (texts : List Bytes)
deriving DecidableEq, Repr, Inhabited

/-- A resource of a message: its header, the error of skipping it and what reading it gives. -/
structure DnsResource where
  type : UInt16
  class' : UInt16
  skip : Option Bytes
  body : Except Bytes DnsBody
  /-- `ResourceHeader.ExtendedRCode` -/
  extended : Nat → Nat
deriving Inhabited

/-- A message as `dnsmessage.Parser` reads it: each section up to its end or to an error. -/
structure DnsMessage where
  header : DnsHeader
  questions : List DnsAsked × Option Bytes
  answers : List DnsResource × Option Bytes
  authorities : Option Bytes
  additionals : List DnsResource
deriving Inhabited

/-- The packages that the prober is written against. -/
structure Packages extends UrlLib where
  toLower : Bytes → Bytes
  equalFold : Bytes → Bytes → Bool
  toValidUTF8 : Bytes → Bytes
  /-- `netip.ParseAddr` -/
  parseAddr : Bytes → Option Addr
  addrString : Addr → Bytes
  /-- `idna.Lookup.ToASCII` -/
  toASCII : Bytes → Option Bytes
  splitHostPort : Bytes → Except Err (Bytes × Bytes)
  /-- `strconv.ParseUint` to base 10 and 16 bits -/
  parseUint16 : Bytes → Option Nat
  lookupPort : Bytes → Option Nat
  /-- `http.NewRequestWithContext` accepts the URL -/
  newRequest : Bytes → Option Err
  parseMediaType : Bytes → Bytes
  monitorDestinationRefused : Addr → Bool
  monitorHasSecrets : Monitor → Bool
  monitorOrigin : Bytes → Option Bytes
  canonicalMonitorHeaderName : Bytes → Bytes
  validateMonitorHeader : Bytes → Bytes → Option Bytes
  /-- `model.ParseMonitorStatusSet`: the set and its text -/
  parseMonitorStatusSet : Bytes → Except Bytes ((Nat → Bool) × Bytes)
  monitorPackets : Monitor → Int
  monitorPacketsMax : Int
  parseDNSResolver : Bytes → Except Bytes DnsResolver
  normalizeDNSName : Bytes → Except Bytes Bytes
  normalizeDNSType : Bytes → Except Bytes DnsType
  normalizeDNSExpectRcode : Bytes → Except Bytes Bytes
  canonicalDNSValue : DnsType → Bytes → Except Bytes Bytes
  dnsCodeText : DnsCode → Bytes
  monitorDNSExpectMax : Nat
  monitorDNSAnswersMax : Nat
  monitorDNSValueMax : Nat
  monitorDNSResponseMax : Nat
  /-- `dnsmessage.NewName` -/
  newName : Bytes → Option Bytes
  /-- the builder: the message with one question and an EDNS(0) record -/
  buildQuery : UInt16 → Bytes → UInt16 → Nat → Except Err Bytes
  parseMessage : Bytes → Except Bytes DnsMessage
  getpid : Nat
  /-- `icmp.Message.Marshal` of an echo -/
  marshalEcho : Nat → Nat → Bytes → Except Err Bytes
  /-- `icmp.ParseMessage`: the data of an echo reply -/
  parseEchoReply : Bytes → Option Bytes
deriving Inhabited

end LatticeAgent.Prober
