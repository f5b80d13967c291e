import LatticeAgent.Go

/-! # The data of the trace collector

A log line as the parser of `singboxlog` leaves it, and the parts of the SDK's `model`
package that travel between the trace policy, the connection assembler, the budget guard and
the shipper. What the collector takes from the SDK and from Go's Unicode tables is the
parameter `Sdk`, with the laws its documentation states. -/

namespace LatticeAgent.Trace

/-- The functions of Go's library that the collector calls. -/
structure StdLib where
  /-- `strings.ToLower`. -/
  toLower : String → String
  /-- `strings.EqualFold`. -/
  equalFold : String → String → Bool
  /-- `strconv.Atoi`, where it succeeds. -/
  atoi : String → Option Int
  /-- `strconv.Quote`. -/
  quote : String → String
  /-- `sha256.Sum256`. -/
  sum256 : Bytes → Bytes

/-- The functions of the SDK's `model` that the collector calls, over Go's library. -/
structure Sdk extends StdLib where
  /-- `model.TraceLevelInfo`. -/
  traceLevelInfo : String
  /-- `model.ValidTraceLevel`. -/
  validTraceLevel : String → Bool
  /-- `model.TraceLevelAtLeast(a, b)`: a reader at level `a` may see a line of level `b`. -/
  traceLevelAtLeast : String → String → Bool
  /-- `model.BoundCollectorDetail`. -/
  boundCollectorDetail : String → String
  info_valid : validTraceLevel traceLevelInfo = true
  /-- The empty string stands for no level at all. -/
  empty_not_valid : validTraceLevel "" = false
  /-- The levels are lower-case words. -/
  lower_valid : ∀ l, validTraceLevel l = true → toLower (trimSpace l) = l
  atLeast_total : ∀ a b, validTraceLevel a = true → validTraceLevel b = true →
    traceLevelAtLeast a b = true ∨ traceLevelAtLeast b a = true
  atLeast_trans : ∀ a b c, validTraceLevel a = true → validTraceLevel b = true →
    validTraceLevel c = true → traceLevelAtLeast a b = true → traceLevelAtLeast b c = true →
    traceLevelAtLeast a c = true

/-- The five levels, least verbose first. -/
def traceLevels : List String := ["error", "warn", "info", "debug", "trace"]

/-- The SDK's levels over the text functions of an ASCII log. -/
def asciiSdk : Sdk where
  traceLevelInfo := "info"
  validTraceLevel l := decide (l ∈ traceLevels)
  traceLevelAtLeast a b := decide (traceLevels.idxOf b ≤ traceLevels.idxOf a)
  boundCollectorDetail := id
  toLower s := String.ofList (s.toList.map Char.toLower)
  equalFold a b := a.toList.map Char.toLower == b.toList.map Char.toLower
  atoi := String.toInt?
  quote s := "\"" ++ s ++ "\""
  sum256 := id
  info_valid := by decide
  empty_not_valid := by decide
  lower_valid := by
    intro l hl
    simp only [traceLevels, decide_eq_true_eq, List.mem_cons, List.not_mem_nil, or_false] at hl
    rcases hl with rfl | rfl | rfl | rfl | rfl <;> decide
  atLeast_total a b _ _ := by
    simp only [decide_eq_true_eq]
    omega
  atLeast_trans a b c _ _ _ hab hbc := by
    simp only [decide_eq_true_eq] at hab hbc ⊢
    omega

/-- A reading of the agent's clock, which is never the zero time. -/
abbrev Clock := { t : Time // 0 < t }

/-- The reading so many seconds into Unix time. -/
def Clock.unix (n : Nat) : Clock := ⟨unixEpoch + n * second, by unfold unixEpoch second; lia⟩

/-- A numeral other than `0` is the reading so many nanoseconds into Unix time. -/
instance (n : Nat) : OfNat Clock (n + 1) :=
  ⟨unixEpoch + (n + 1 : Nat), by unfold unixEpoch second; lia⟩

/-- `singboxlog.Event`. -/
inductive Event where
  | inboundFrom | inboundTo | ruleMatch | sniffed | outboundTo | dns | finished | closed
  | connectionClosed | dialFailed | authFailed | handshakeFailed | other
deriving DecidableEq, Repr

/-- `singboxlog.TagKind`. -/
inductive TagKind where
  | inbound | outbound | router | connection | dns | other
deriving DecidableEq, Repr

/-- `singboxlog.Direction` of a half-close. -/
inductive Direction where
  | upload | download | none
deriving DecidableEq, Repr

/-- `singboxlog.Line`: one parsed log line. -/
structure Line where
  at_ : Time := 0
  level : String := ""
  logID : UInt32 := 0
  hasLogID : Bool := false
  elapsedMS : Int := 0
  tag : String := ""
  tagKind : TagKind := .other
  tagType : String := ""
  tagName : String := ""
  event : Event := .other
  message : String := ""
  raw : String := ""
  user : String := ""
  srcIP : String := ""
  srcPort : Int := 0
  dstHost : String := ""
  dstPort : Int := 0
  ruleIndex : Int := 0
  hasRule : Bool := false
  ruleText : String := ""
  action : String := ""
  outbound : String := ""
  sniffProtocol : String := ""
  sniffDomain : String := ""
  dnsDomain : String := ""
  dnsResult : List String := []
  direction : Direction := .none
  error : String := ""
  outboundType : String := ""
  outboundName : String := ""
  packet : Bool := false
deriving DecidableEq, Repr

/-- `singboxlog.Line.Parsed`. -/
def Line.parsed (l : Line) : Bool := l.event != .other

/-- `model.TraceLine`: a line as it is shipped, for one session. -/
structure TraceLine where
  nodeID : String := ""
  sessionID : String := ""
  at_ : Time := 0
  level : String := ""
  logID : UInt32 := 0
  tag : String := ""
  message : String := ""
  raw : String := ""
deriving DecidableEq, Repr

/-- The `model.Close…` reasons of a connection record. -/
inductive CloseReason where
  | unknown | dialFailed | authFailed | handshakeFailed | eof | reset | timeout | canceled
  | udpIdle | coreRestart
deriving DecidableEq, Repr

/-- The `model.UserKind…` constants. -/
inductive UserKind where
  | unobserved | unnamed | managed | legacy
deriving DecidableEq, Repr

/-- `model.ConnRecord`: what is told about one connection. No close reason is the empty
string of the source. -/
structure ConnRecord where
  nodeID : String := ""
  logID : UInt32 := 0
  network : String := ""
  startedAt : Time := 0
  endedAt : Time := 0
  userKind : UserKind := .unobserved
  userName : String := ""
  inboundTag : String := ""
  inboundType : String := ""
  srcIP : String := ""
  srcPort : Int := 0
  dstHost : String := ""
  dstPort : Int := 0
  dstIP : String := ""
  ruleIndex : Int := 0
  ruleText : String := ""
  outboundTag : String := ""
  outboundType : String := ""
  sniffedProtocol : String := ""
  sniffedDomain : String := ""
  upload : Int := 0
  download : Int := 0
  bytesKnown : Bool := false
  stalledAt : Time := 0
  sessionIDs : List String := []
  open_ : Bool := false
  coreGeneration : UInt64 := 0
  closeReason : Option CloseReason := none
  closeError : String := ""
  durationMS : Int := 0
deriving DecidableEq, Repr

/-- `model.TraceAgentSession`: one capture session. -/
structure TraceAgentSession where
  id : String
  level : String
  userNames : List String := []
  inboundTags : List String := []
  dstPatterns : List String := []
  expiresAt : Time
deriving DecidableEq, Repr

/-- `model.TracePolicy`: the node's own policy. `raw` is the raw switch, absent in a policy
of an older server. -/
structure TracePolicy where
  enabled : Bool := false
  level : String := ""
  clashAPIAddr : String := ""
  secretPath : String := ""
  budgetLinesPerSec : Int := 0
  raw : Option Bool := none
deriving DecidableEq, Repr

/-- `model.TraceAgentConfig`: what the server sends. -/
structure TraceAgentConfig where
  policy : TracePolicy := {}
  sessions : List TraceAgentSession := []
  serverTime : Time := 0
  rawSourceID : String := ""
deriving DecidableEq, Repr

end LatticeAgent.Trace
