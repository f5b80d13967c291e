import LatticeAgent.Trace.Types
import Mathlib.Data.List.AList
import Mathlib.Data.List.Sort
import Mathlib.Data.Finset.Basic

/-! # The connection assembler

`sessionasm.Assembler` groups log lines by log id into connections, folds the polls of the
connection table into them and emits records. The source links its `*conn` values from three
places: the map by log id, the list in creation order and the index by source address. Here
a connection is named by the place of its allocation in `conns`, so that the three can hold
the same connection as the source's pointers do.

`finals` is a history of the proofs: the final records emitted so far, each with the
connection it is about. -/

namespace LatticeAgent.Trace

/-! ### Connections -/

/-- `closeCandidate`: a close reason and the rank of the evidence behind it. -/
structure CloseCandidate where
  reason : Option CloseReason := none
  err : String := ""
  rank : Nat := 0
deriving DecidableEq, Repr

/-- `rankNone`: nothing was said. -/
def rankNone : Nat := 0
/-- `rankSoft`: closed with no error. -/
def rankSoft : Nat := 1
/-- `rankEOF`: a direction genuinely finished. -/
def rankEOF : Nat := 2
/-- `rankError`: an error text was logged. -/
def rankError : Nat := 3
/-- `rankTerminal`: the inbound or the dialler stated how it ended. -/
def rankTerminal : Nat := 4

/-- `conn`: the state of one connection in flight. -/
structure Conn where
  record : ConnRecord := {}
  lastSeenAt : Time := 0
  lastElapsedMS : Int := 0
  haveOutbound : Bool := false
  closedUp : Bool := false
  closedDown : Bool := false
  close : CloseCandidate := {}
  firstHalfAt : Time := 0
  sampled : Bool := false
  lastSnapAt : Time := 0
  lastByteChangeAt : Time := 0
  lastSnapSeq : UInt64 := 0
  sessions : List String := []
  lastEmitAt : Time := 0
  srcKey : String := ""
deriving DecidableEq, Repr

/-- `managedUserName`: `u_` and sixteen lower-case hexadecimal digits. -/
def managedUserName (s : String) : Bool :=
  let cs := s.toList
  cs.take 2 == ['u', '_'] && cs.length == 18 &&
    (cs.drop 2).all fun ch => ('0' ≤ ch && ch ≤ '9') || ('a' ≤ ch && ch ≤ 'f')

def networkOf (l : Line) : String :=
  match l.event with
  | .inboundFrom | .inboundTo | .outboundTo | .finished | .closed | .connectionClosed
  | .dialFailed => if l.packet then "udp" else "tcp"
  | _ => ""

def closeReasonFor (sdk : Sdk) (errText : String) (whenEmpty : CloseReason) : CloseReason :=
  if trimSpace errText = "" then whenEmpty
  else
    let low := sdk.toLower errText
    if contains low "reset by peer" then .reset
    else if contains low "i/o timeout" || contains low "deadline exceeded" then .timeout
    else if contains low "handshake" then .handshakeFailed
    else if contains low "eof" then .eof
    else .unknown

def evidenceRank (errText : String) (whenEmpty : CloseReason) : Nat :=
  if trimSpace errText ≠ "" then rankError
  else if whenEmpty = .eof then rankEOF
  else rankSoft

/-- `strings.TrimSuffix(s, ".")`. -/
def trimDot (s : String) : String :=
  if s.toList.getLast? = some '.' then String.ofList s.toList.dropLast else s

def sameHost (sdk : Sdk) (a b : String) : Bool :=
  if a = "" ∨ b = "" then false else sdk.equalFold (trimDot a) (trimDot b)

def srcKey (ip port : String) : String := if ip = "" then "" else ip ++ "|" ++ port

def atoiPort (sdk : Sdk) (s : String) : Int := (sdk.atoi (trimSpace s)).getD 0

def millis (d : Duration) : Int := if d ≤ 0 then 0 else d / 1000000

namespace Conn

/-- `conn.offer`. -/
def offer (c : Conn) (cand : CloseCandidate) : Conn :=
  if c.close.rank < cand.rank then { c with close := cand } else c

/-- `conn.evalStall`. -/
def evalStall (c : Conn) (now : Time) (floor quiet : Duration) : Conn :=
  if !c.sampled then c
  else if !c.record.stalledAt.isZero then c
  else if now.sub c.record.startedAt ≤ floor then c
  else if c.lastSnapAt.sub c.lastByteChangeAt < quiet then c
  else { c with record := { c.record with stalledAt := c.lastByteChangeAt } }

/-- What `apply` does with every line that is not a repeated outbound line. -/
def seen (c : Conn) (l : Line) (at_ : Time) : Conn :=
  let inbound := l.tagKind == .inbound
  { c with
    lastSeenAt := at_
    lastElapsedMS := max c.lastElapsedMS l.elapsedMS
    record :=
      { c.record with
        network := if c.record.network = "" then networkOf l else c.record.network
        inboundTag := if inbound && c.record.inboundTag = "" then l.tagName else c.record.inboundTag
        inboundType := if inbound && c.record.inboundType = "" then l.tagType
          else c.record.inboundType } }

/-- `apply` on an accept line, before the source index. -/
def inboundFrom (c : Conn) (l : Line) : Conn :=
  { c with record := { c.record with srcIP := l.srcIP, srcPort := l.srcPort } }

/-- `apply` on the line that carries the identity. -/
def inboundTo (c : Conn) (l : Line) : Conn :=
  { c with
    record :=
      { c.record with
        dstHost := if l.dstHost ≠ "" then l.dstHost else c.record.dstHost
        dstPort := if l.dstHost ≠ "" then l.dstPort else c.record.dstPort
        network := if l.packet then "udp" else c.record.network
        userName := if l.user ≠ "" then l.user else c.record.userName
        userKind :=
          if l.user ≠ "" then (if managedUserName l.user then .managed else .legacy)
          else c.record.userKind } }

/-- `apply` on a routing decision. -/
def ruleMatch (c : Conn) (l : Line) : Conn :=
  if l.action = "sniff" then c
  else
    { c with
      record :=
        { c.record with
          ruleIndex := if l.hasRule then l.ruleIndex else c.record.ruleIndex
          ruleText := if l.ruleText ≠ "" then l.ruleText else c.record.ruleText
          outboundTag := if l.outbound ≠ "" ∧ c.record.outboundTag = "" then l.outbound
            else c.record.outboundTag } }

/-- `apply` on a sniffed protocol. -/
def sniffed (c : Conn) (l : Line) : Conn :=
  { c with
    record := { c.record with sniffedProtocol := l.sniffProtocol, sniffedDomain := l.sniffDomain } }

/-- `apply` on the first outbound line. -/
def outboundTo (c : Conn) (l : Line) : Conn :=
  let fresh := c.record.dstHost = "" ∧ l.dstHost ≠ ""
  { c with
    haveOutbound := true
    record :=
      { c.record with
        outboundTag := l.tagName
        outboundType := l.tagType
        dstHost := if fresh then l.dstHost else c.record.dstHost
        dstPort := if fresh then l.dstPort else c.record.dstPort } }

/-- `apply` on a lookup line. -/
def dns (sdk : Sdk) (c : Conn) (l : Line) : Conn :=
  match l.dnsResult with
  | ip :: _ =>
    if c.record.dstIP = "" ∧ sameHost sdk l.dnsDomain c.record.dstHost = true then
      { c with record := { c.record with dstIP := ip } }
    else c
  | [] => c

/-- `apply` on a failed dial, before the connection is finished. -/
def dialFailed (c : Conn) (l : Line) : Conn :=
  { c with
    record :=
      { c.record with
        outboundTag := if c.record.outboundTag = "" then l.outboundName else c.record.outboundTag
        outboundType := if c.record.outboundType = "" then l.outboundType
          else c.record.outboundType } }

/-- `halfClosed`, before the connection is finished: which directions have closed. -/
def halfClosed (c : Conn) (l : Line) (at_ : Time) : Conn :=
  let c := if c.firstHalfAt.isZero then { c with firstHalfAt := at_ } else c
  match l.direction with
  | .upload => { c with closedUp := true }
  | .download => { c with closedDown := true }
  | .none => if !c.closedUp then { c with closedUp := true } else { c with closedDown := true }

end Conn

/-- `SnapshotItem`: one live connection of the connection table. -/
structure SnapshotItem where
  srcIP : String := ""
  srcPort : String := ""
  dstHost : String := ""
  dstPort : String := ""
  inboundType : String := ""
  inboundTag : String := ""
  network : String := ""
  upload : Int := 0
  download : Int := 0
  rule : String := ""
  chains : List String := []
  start : Time := 0
deriving DecidableEq, Repr

/-- `join`: a table entry folded into its connection. -/
def Conn.join (sdk : Sdk) (c : Conn) (item : SnapshotItem) (at_ : Time) (snapSeq : UInt64)
    (floor quiet : Duration) : Conn :=
  let moved := !c.sampled || item.upload != c.record.upload || item.download != c.record.download
  let fresh := c.record.dstHost = "" ∧ item.dstHost ≠ ""
  Conn.evalStall
    { c with
      lastByteChangeAt := if moved then at_ else c.lastByteChangeAt
      sampled := true
      lastSnapAt := at_
      lastSnapSeq := snapSeq
      lastSeenAt := at_
      record :=
        { c.record with
          stalledAt := if moved then 0 else c.record.stalledAt
          upload := item.upload
          download := item.download
          bytesKnown := true
          inboundType := if c.record.inboundType = "" then item.inboundType else c.record.inboundType
          inboundTag := if c.record.inboundTag = "" then item.inboundTag else c.record.inboundTag
          ruleText := if c.record.ruleText = "" then item.rule else c.record.ruleText
          network := if c.record.network = "" then item.network else c.record.network
          dstHost := if fresh then item.dstHost else c.record.dstHost
          dstPort := if fresh then atoiPort sdk item.dstPort else c.record.dstPort
          outboundTag := if c.record.outboundTag = "" then item.chains.headD c.record.outboundTag
            else c.record.outboundTag } }
    at_ floor quiet

/-! ### The assembler -/

/-- `sessionasm.Options` without the clock, which the operations take. -/
structure Options where
  nodeID : String := ""
  coreGeneration : UInt64 := 0
  maxOpen : Int := 0
  orphanTTL : Duration := 0
  snapshotEvery : Duration := 0
  stallFloor : Duration := 0
  stallQuiet : Duration := 0
  halfCloseGrace : Duration := 0
deriving DecidableEq, Repr

/-- `doneSet`: the log ids already emitted, the oldest forgotten first. -/
structure DoneSet where
  ids : Finset UInt32 := ∅
  ring : List UInt32 := []
  cap : Nat
  pos : Nat := 0

namespace DoneSet

/-- `newDoneSet`. -/
def new (capacity : Int) : DoneSet where
  cap := if capacity < 1 then 1 else capacity.toNat

/-- `doneSet.has`. -/
def has (d : DoneSet) (id : UInt32) : Bool := decide (id ∈ d.ids)

/-- `doneSet.add`. -/
def add (d : DoneSet) (id : UInt32) : DoneSet :=
  if d.has id then d
  else if d.ring.length < d.cap then
    { d with ring := d.ring ++ [id], ids := insert id d.ids }
  else
    { d with
      ids := insert id (d.ids.erase (d.ring.getD d.pos 0))
      ring := d.ring.set d.pos id
      pos := (d.pos + 1) % d.cap }

/-- `doneSet.reset`. -/
def reset (d : DoneSet) : DoneSet := { d with ids := ∅, ring := [], pos := 0 }

end DoneSet

/-- `sessionasm.Stats`; the number of open connections is read off the map. -/
structure AsmStats where
  emitted : UInt64 := 0
  swept : UInt64 := 0
  orphaned : UInt64 := 0
  partials : UInt64 := 0
  dropped : UInt64 := 0
deriving DecidableEq, Repr

/-- `sessionasm.Assembler`. -/
structure Assembler where
  opts : Options
  gen : UInt64
  conns : List Conn := []
  open_ : AList (fun _ : UInt32 => Nat) := ∅
  order : List Nat := []
  bySrc : AList (fun _ : String => Nat) := ∅
  done : DoneSet
  out : List ConnRecord := []
  stats : AsmStats := {}
  snapSeq : UInt64 := 0
  finals : List (Nat × ConnRecord) := []

inductive DurationSource where
  | core | clock
deriving DecidableEq, Repr

/-- `Snapshot`: one poll of the connection table. -/
structure Snapshot where
  at_ : Time
  items : List SnapshotItem := []
deriving DecidableEq, Repr

def snapshotStartSkew : Duration := 30 * second

/-- A time that is zero is replaced by the clock's. -/
def orClock (at_ clock : Time) : Time := if at_.isZero then clock else at_

namespace Assembler

/-- `sessionasm.New`: anything unset gets its default. -/
def new (opts : Options) : Assembler :=
  let opts :=
    { opts with
      maxOpen := if opts.maxOpen ≤ 0 then 4096 else opts.maxOpen
      orphanTTL := if opts.orphanTTL ≤ 0 then 600 * second else opts.orphanTTL
      snapshotEvery := if opts.snapshotEvery ≤ 0 then 60 * second else opts.snapshotEvery
      stallFloor := if opts.stallFloor ≤ 0 then 60 * second else opts.stallFloor
      stallQuiet := if opts.stallQuiet ≤ 0 then 30 * second else opts.stallQuiet
      halfCloseGrace := if opts.halfCloseGrace ≤ 0 then 2 * second else opts.halfCloseGrace }
  { opts := opts, gen := opts.coreGeneration, done := DoneSet.new opts.maxOpen }

variable (sdk : Sdk) (a : Assembler)

/-- The connection a pointer leads to. -/
def conn (r : Nat) : Conn := a.conns.getD r {}

/-- A write through a pointer. -/
def modify (r : Nat) (f : Conn → Conn) : Assembler :=
  { a with conns := a.conns.set r (f (a.conn r)) }

def push (rec : ConnRecord) : Assembler :=
  { a with
    out := a.out ++ [rec]
    stats := { a.stats with emitted := a.stats.emitted + 1 } }

/-- `forget`: the connection leaves the map, the list and the index. -/
def forget (r : Nat) : Assembler :=
  let c := a.conn r
  { a with
    open_ := a.open_.erase c.record.logID
    order := a.order.erase r
    bySrc := if c.srcKey ≠ "" ∧ a.bySrc.lookup c.srcKey = some r then a.bySrc.erase c.srcKey
      else a.bySrc }

/-- The final record of a connection. -/
def finalRecord (r : Nat) (cand : CloseCandidate) (endedAt : Time) (src : DurationSource) :
    ConnRecord :=
  let c := a.conn r
  { c.record with
    sessionIDs := c.sessions
    open_ := false
    endedAt := endedAt
    coreGeneration := a.gen
    closeReason := some (cand.reason.getD .unknown)
    closeError := cand.err
    durationMS :=
      match src with
      | .clock => millis (endedAt.sub c.record.startedAt)
      | .core => c.lastElapsedMS }

/-- `finish`: a connection that was seen only at its close is counted and not emitted. -/
def finish (r : Nat) (cand : CloseCandidate) (endedAt : Time) (src : DurationSource) :
    Assembler :=
  let final := a.finalRecord r cand endedAt src
  let a := a.forget r
  let a := { a with done := a.done.add final.logID }
  if final.srcIP = "" ∧ final.dstHost = "" then
    { a with stats := { a.stats with partials := a.stats.partials + 1 } }
  else { a.push final with finals := a.finals ++ [(r, final)] }

def evictOldest : Assembler :=
  match a.order with
  | [] => a
  | r :: _ =>
    let logID := (a.conn r).record.logID
    let a := a.forget r
    { a with
      done := a.done.add logID
      stats := { a.stats with dropped := a.stats.dropped + 1 } }

def create (l : Line) (at_ : Time) : Nat × Assembler :=
  let a := if a.opts.maxOpen ≤ a.open_.entries.length then a.evictOldest else a
  let started := at_ + milliseconds (-l.elapsedMS)
  let c : Conn :=
    { record :=
        { nodeID := a.opts.nodeID
          logID := l.logID
          network := networkOf l
          startedAt := started
          -- A name may still turn up only if the identity-bearing line is this one or the next.
          userKind := if l.event = .inboundFrom ∨ l.event = .inboundTo then .unnamed
            else .unobserved }
      lastSeenAt := at_
      lastElapsedMS := l.elapsedMS
      lastEmitAt := started }
  (a.conns.length,
    { a with
      conns := a.conns ++ [c]
      open_ := a.open_.insert l.logID a.conns.length
      order := a.order ++ [a.conns.length] })

/-- `indexSrc`: the newest connection of a source address is the one the polls are joined to. -/
def indexSrc (r : Nat) : Assembler :=
  let c := a.conn r
  if c.record.srcIP = "" then a
  else
    let key := srcKey c.record.srcIP (toString c.record.srcPort)
    let bySrc :=
      if c.srcKey ≠ "" ∧ c.srcKey ≠ key ∧ a.bySrc.lookup c.srcKey = some r then
        a.bySrc.erase c.srcKey
      else a.bySrc
    { a.modify r fun c => { c with srcKey := key } with bySrc := bySrc.insert key r }

/-- `halfClosed`: the second half close finishes the connection. -/
def halfClosed (r : Nat) (l : Line) (at_ : Time) : Assembler :=
  let a := a.modify r fun c => c.halfClosed l at_
  let c := a.conn r
  if c.closedUp && c.closedDown then a.finish r c.close at_ .core else a

/-- The close candidate of a line. -/
def lineCandidate (l : Line) (reason : CloseReason) (rank : Nat) : CloseCandidate :=
  ⟨some reason, l.error, rank⟩

/-- `apply`: one line folded into the connection it belongs to. -/
def apply (r : Nat) (l : Line) (at_ : Time) : Assembler :=
  if l.event = .outboundTo ∧ (a.conn r).haveOutbound = true then
    a.modify r fun c => { c with lastSeenAt := at_ }
  else
    let a := a.modify r fun c => c.seen l at_
    match l.event with
    | .inboundFrom => (a.modify r fun c => c.inboundFrom l).indexSrc r
    | .inboundTo => a.modify r fun c => c.inboundTo l
    | .ruleMatch => a.modify r fun c => c.ruleMatch l
    | .sniffed => a.modify r fun c => c.sniffed l
    | .outboundTo => a.modify r fun c => c.outboundTo l
    | .dns => a.modify r fun c => c.dns sdk l
    | .dialFailed =>
      (a.modify r fun c => c.dialFailed l).finish r
        (lineCandidate l .dialFailed rankTerminal) at_ .core
    | .authFailed => a.finish r (lineCandidate l .authFailed rankTerminal) at_ .core
    | .handshakeFailed => a.finish r (lineCandidate l .handshakeFailed rankTerminal) at_ .core
    | .connectionClosed =>
      a.finish r (lineCandidate l (closeReasonFor sdk l.error .eof) rankTerminal) at_ .core
    | .finished =>
      (a.modify r fun c => c.offer
        (lineCandidate l (closeReasonFor sdk l.error .eof) (evidenceRank l.error .eof))).halfClosed
        r l at_
    | .closed =>
      let empty := if l.packet then CloseReason.udpIdle else CloseReason.canceled
      (a.modify r fun c => c.offer
        (lineCandidate l (closeReasonFor sdk l.error empty) (evidenceRank l.error empty))).halfClosed
        r l at_
    | .other => a

/-- What `Line` finishes a connection with when a new one is accepted on its log id. -/
def collision : CloseCandidate :=
  ⟨some .unknown, "log id collision: a new connection reused this log id", rankTerminal⟩

/-- `Line`: feeds one parsed log line. -/
def line (l : Line) (clock : Time) : Assembler :=
  if !l.hasLogID then a
  else
    let at_ := orClock l.at_ clock
    match a.open_.lookup l.logID with
    | some r =>
      if l.event = .inboundFrom then
        let (r', a) := (a.finish r collision at_ .core).create l at_
        a.apply sdk r' l at_
      else a.apply sdk r l at_
    | none =>
      -- A trailing line of a connection already emitted must not bring it back.
      if l.event ≠ .inboundFrom ∧ a.done.has l.logID = true then a
      else
        let (r, a) := a.create l at_
        a.apply sdk r l at_

def stillListed (c : Conn) : Bool := c.sampled && decide (a.snapSeq ≤ c.lastSnapSeq)

/-- What a connection that left the table without a close line is finished with. -/
def vanished : CloseCandidate :=
  ⟨some .unknown, "connection left the sing-box connection table without a close line",
    rankTerminal⟩

/-- One pass of `sweepVanished`. -/
def sweepOne (at_ : Time) (a : Assembler) (r : Nat) : Assembler :=
  let c := a.conn r
  if c.sampled && decide (c.lastSnapSeq < a.snapSeq) then
    if c.close.rank = rankNone then a.finish r vanished at_ .clock
    else a.finish r c.close at_ .core
  else a

/-- `sweepVanished`: a pass only ever removes the connection it is at. -/
def sweepVanished (at_ : Time) : Assembler := a.order.foldl (sweepOne at_) a

/-- One pass of `Snapshot`'s loop. -/
def snapshotOne (at_ : Time) (a : Assembler) (item : SnapshotItem) : Assembler :=
  match a.bySrc.lookup (srcKey item.srcIP item.srcPort) with
  | none => a
  | some r =>
    if !item.start.isZero &&
        decide (item.start < (a.conn r).record.startedAt - snapshotStartSkew) then a
    else a.modify r fun c =>
      c.join sdk item at_ a.snapSeq a.opts.stallFloor a.opts.stallQuiet

def snapshot (s : Snapshot) (clock : Time) : Assembler :=
  let at_ := orClock s.at_ clock
  let a := { a with snapSeq := a.snapSeq + 1 }
  (s.items.foldl (snapshotOne sdk at_) a).sweepVanished at_

/-- `emitOpen`: a record of a connection that is still open. -/
def emitOpen (r : Nat) (now : Time) : Assembler :=
  let c := a.conn r
  (a.modify r fun c => { c with lastEmitAt := now }).push
    { c.record with
      sessionIDs := c.sessions
      open_ := true
      coreGeneration := a.gen
      closeReason := some .unknown
      durationMS := millis (now.sub c.record.startedAt) }

/-- What `Tick` finishes an orphan with. -/
def orphan (c : Conn) : CloseCandidate :=
  ⟨some .unknown,
    if c.close.err = "" then "no further log lines for this connection" else c.close.err,
    rankTerminal⟩

/-- One pass of `Tick`. -/
def tickOne (now : Time) (a : Assembler) (r : Nat) : Assembler :=
  let c := a.conn r
  if !c.firstHalfAt.isZero && decide (a.opts.halfCloseGrace ≤ now.sub c.firstHalfAt) &&
      !a.stillListed c then
    a.finish r c.close c.firstHalfAt .core
  else if a.opts.orphanTTL ≤ now.sub c.lastSeenAt then
    let a := { a with stats := { a.stats with orphaned := a.stats.orphaned + 1 } }
    a.finish r (orphan c) now .core
  else
    let a := a.modify r fun c => c.evalStall now a.opts.stallFloor a.opts.stallQuiet
    if a.opts.snapshotEvery ≤ now.sub (a.conn r).lastEmitAt then a.emitOpen r now else a

def tick (now clock : Time) : Assembler :=
  a.order.foldl (tickOne (orClock now clock)) a

/-- `CoreRestart`: every open connection ended with the core. -/
def coreRestart (newGeneration : UInt64) (at_ clock : Time) : Assembler :=
  let swept := a.order.length
  let a := a.order.foldl
    (fun a r => a.finish r ⟨some .coreRestart, "", rankTerminal⟩ (orClock at_ clock) .clock) a
  { a with
    stats := { a.stats with swept := a.stats.swept + UInt64.ofNat swept }
    done := a.done.reset
    gen := newGeneration }

def drain : List ConnRecord × Assembler := (a.out, { a with out := [] })

/-- `ConnContext`, for a connection that is known. -/
structure Context where
  user : String
  dstHost : String
  inboundTag : String
deriving DecidableEq, Repr

def context (logID : UInt32) : Option Context :=
  (a.open_.lookup logID).map fun r =>
    let c := a.conn r
    ⟨c.record.userName, c.record.dstHost, c.record.inboundTag⟩

def tracked (logID : UInt32) : Bool := (a.open_.lookup logID).isSome || a.done.has logID

/-- The union `Tag` makes, before it sorts. -/
def unionSessions (have_ ids : List String) : List String :=
  ids.foldl (fun acc id => if id = "" ∨ id ∈ acc then acc else acc ++ [id]) have_

/-- `Tag`: the sessions of a connection, as a sorted set. -/
def tag (logID : UInt32) (sessionIDs : List String) : Assembler :=
  if sessionIDs.isEmpty then a
  else
    match a.open_.lookup logID with
    | none => a
    | some r => a.modify r fun c =>
      { c with sessions := (unionSessions c.sessions sessionIDs).insertionSort (· ≤ ·) }

end Assembler

end LatticeAgent.Trace
